import LfiRuntime.Arch.X64.GsCache

/-!
The cache of `%gs` agrees with writing `%gs` at every entry: the two builds make
the same runs, and in each the segment base of a thread in the sandbox is the
base of its box.
-/

namespace LfiRuntime.GsCache

open LfiRuntime.Runs

/-- A frame and the ones it was pushed on. -/
def Nested : List Frame → Prop
  | [] => True
  | f :: fs => (if f.entersBox then AboveHost fs
      else ∃ g ∈ fs.head?, g.entersBox ∧ g.ctx = f.ctx) ∧ Nested fs

/-- A context is bound to the thread that has it on its stack. The slot of a
thread is its `%gs`, or as it was at the start of the thread. -/
structure ThreadOk (ctxs : Nat → Option LFIContext) (t : Nat) (th : Thread) : Prop where
  slot : th.gsBase = th.gs ∨ th.gsBase = 0
  nested : Nested th.frames
  bound : ∀ f ∈ th.frames, ∃ ctx, ctxs f.ctx = some ctx ∧ ctx.gsCache = t ∧
    ∀ r ∈ f.saved, r = ctx.box.base
  top : ∀ f ∈ th.frames.head?, f.entersBox → ∀ ctx, ctxs f.ctx = some ctx →
    th.gs = ctx.box.base ∧ th.r14 = ctx.box.base

structure Inv (s : State) : Prop where
  threads : ∀ t th, s.threads t = some th → ThreadOk s.ctxs t th
  ctxs : ∀ c ctx, s.ctxs c = some ctx → ctx.r14 = ctx.box.base

variable {s s' : State} {t c : Nat} {th : Thread} {ctx : LFIContext} {f : Frame}
  {fs fs' : List Frame} {ctxs : Nat → Option LFIContext} {a : Action}

namespace State

@[simp] theorem setThread_ctxs (th : Option Thread) : (s.setThread t th).ctxs = s.ctxs := rfl

@[simp] theorem mapThread_ctxs (g : Thread → Thread) : (s.mapThread t g).ctxs = s.ctxs := rfl

@[simp] theorem mapCtx_threads (g : LFIContext → LFIContext) :
    (s.mapCtx c g).threads = s.threads := rfl

theorem mapThread_of_eq (h : s.threads t = some th) (g : Thread → Thread) :
    s.mapThread t g = s.setThread t (some (g th)) := by
  simp [mapThread, h]

theorem mapThread_mapThread (g g' : Thread → Thread) :
    (s.mapThread t g).mapThread t g' = s.mapThread t (g' ∘ g) := by
  simp [mapThread, setThread, Function.comp_def]

theorem thread_mapThread (h : s.threads t = some th) (g : Thread → Thread) :
    (s.mapThread t g).threads t = some (g th) := by
  simp [mapThread, setThread, h]

theorem mapThread_of_fixed (h : s.threads t = some th) {g : Thread → Thread} (hg : g th = th) :
    s.mapThread t g = s := by
  rw [mapThread_of_eq h, hg, setThread, ← h, Function.update_eq_self]

theorem frames_of_eq (h : s.threads t = some th) : s.frames t = th.frames := by
  simp [frames, h]

theorem thread_of_frames (h : s.frames t = f :: fs) :
    ∃ th, s.threads t = some th ∧ th.frames = f :: fs := by
  cases ht : s.threads t with
  | none => simp [frames, ht] at h
  | some th => exact ⟨th, rfl, by rw [← frames_of_eq ht, h]⟩

end State

open State

theorem Nested.suffix (h : Nested fs) (hsuffix : fs' <:+ fs) : Nested fs' := by
  obtain ⟨gs, rfl⟩ := hsuffix
  induction gs with
  | nil => exact h
  | cons g gs ih => exact ih h.2

/-! The rules of the invariant. -/

theorem ThreadOk.congr (h : ThreadOk s.ctxs t th)
    (hctxs : ∀ f ∈ th.frames, ∀ ctx, s.ctxs f.ctx = some ctx → ctx.gsCache = t →
      ∃ ctx', ctxs f.ctx = some ctx' ∧ ctx'.box = ctx.box ∧ ctx'.gsCache = t) :
    ThreadOk ctxs t th := by
  refine ⟨h.slot, h.nested, ?_, ?_⟩
  · intro f hf
    obtain ⟨ctx, hctx, hcache, hsaved⟩ := h.bound f hf
    obtain ⟨ctx', hctx', hbox, hcache'⟩ := hctxs f hf ctx hctx hcache
    exact ⟨ctx', hctx', hcache', by rwa [hbox]⟩
  · intro f hf hbox ctx' hctx'
    obtain ⟨ctx, hctx, hcache, -⟩ := h.bound f (List.mem_of_mem_head? hf)
    obtain ⟨ctx₁, hctx₁, hbox₁, -⟩ := hctxs f (List.mem_of_mem_head? hf) ctx hctx hcache
    obtain rfl := Option.some.inj (hctx₁.symm.trans hctx')
    rw [hbox₁]
    exact h.top f hf hbox ctx hctx

/-- Back in host code, with some of the frames undone. -/
theorem ThreadOk.pop (h : ThreadOk ctxs t th) (hsuffix : fs <:+ th.frames) (hhost : AboveHost fs) :
    ThreadOk ctxs t { th with frames := fs } := by
  refine ⟨h.slot, h.nested.suffix hsuffix, fun f hf => h.bound f (hsuffix.mem hf), ?_⟩
  intro f hf hbox
  rw [hhost f hf] at hbox
  cases hbox

/-- Out of the sandbox, into a callback or a runtime call. -/
theorem ThreadOk.leave (h : ThreadOk ctxs t th) {g : Frame} (hg : g ∈ th.frames.head?)
    (hgbox : g.entersBox) (hf : f.entersBox = false) (hctx : f.ctx = g.ctx)
    (hsaved : f.saved = some th.r14) : ThreadOk ctxs t { th with frames := f :: th.frames } := by
  refine ⟨h.slot, ⟨?_, h.nested⟩, ?_, ?_⟩
  · rw [hf]
    exact ⟨g, hg, hgbox, hctx.symm⟩
  · intro f' hf'
    rcases List.mem_cons.mp hf' with rfl | hf'
    · obtain ⟨ctx, hctx', hcache, -⟩ := h.bound g (List.mem_of_mem_head? hg)
      refine ⟨ctx, hctx ▸ hctx', hcache, ?_⟩
      intro r hr
      rw [hsaved] at hr
      obtain rfl := Option.some.inj hr
      exact (h.top g hg hgbox ctx hctx').2
    · exact h.bound f' hf'
  · rintro _ ⟨⟩ hbox
    rw [hf] at hbox
    cases hbox

/-- Into the sandbox with the segment base of the context. -/
theorem threadOk_load (hnested : Nested fs)
    (hbound : ∀ f ∈ fs, ∃ ctx, ctxs f.ctx = some ctx ∧ ctx.gsCache = t ∧
      ∀ r ∈ f.saved, r = ctx.box.base)
    (htop : ∀ f ∈ fs.head?, ctxs f.ctx = some ctx) :
    ThreadOk ctxs t ⟨ctx.box.base, ctx.box.base, ctx.box.base, fs⟩ := by
  refine ⟨.inl rfl, hnested, hbound, ?_⟩
  intro f hf _ ctx' hctx'
  obtain rfl := Option.some.inj ((htop f hf).symm.trans hctx')
  exact ⟨rfl, rfl⟩

theorem Inv.setThread (h : Inv s) {th : Option Thread}
    (hth : ∀ th', th = some th' → ThreadOk s.ctxs t th') : Inv (s.setThread t th) := by
  refine ⟨?_, h.ctxs⟩
  intro u th' hu
  by_cases hut : u = t
  · subst hut
    exact hth th' (by simpa [State.setThread] using hu)
  · exact h.threads u th' (by simpa [State.setThread, hut] using hu)

theorem Inv.setCtx (h : Inv s) {ctx : Option LFIContext}
    (hr14 : ∀ ctx', ctx = some ctx' → ctx'.r14 = ctx'.box.base)
    (huses : ∀ u, s.Uses u c → ∀ old, s.ctxs c = some old →
      ∃ ctx', ctx = some ctx' ∧ ctx'.box = old.box ∧ ctx'.gsCache = u) :
    Inv (s.setCtx c ctx) := by
  constructor
  · intro u th hu
    have hok : ThreadOk s.ctxs u th := h.threads u th hu
    apply hok.congr
    intro f hf old hold hcache
    by_cases hfc : f.ctx = c
    · obtain ⟨ctx', rfl, hbox, hcache'⟩ :=
        huses u ⟨f, by rwa [frames_of_eq (s := s) hu], hfc⟩ old (hfc ▸ hold)
      exact ⟨ctx', by simp [State.setCtx, hfc], hbox, hcache'⟩
    · exact ⟨old, by simpa [State.setCtx, hfc] using hold, rfl, hcache⟩
  · intro d ctx' hd
    by_cases hdc : d = c
    · subst hdc
      exact hr14 ctx' (by simpa [State.setCtx] using hd)
    · exact h.ctxs d ctx' (by simpa [State.setCtx, hdc] using hd)

theorem Inv.uses (h : Inv s) (huses : s.Uses t c) :
    ∃ ctx, s.ctxs c = some ctx ∧ ctx.gsCache = t := by
  obtain ⟨f, hf, rfl⟩ := huses
  cases ht : s.threads t with
  | none => simp [frames, ht] at hf
  | some th =>
      rw [frames_of_eq ht] at hf
      obtain ⟨ctx, hctx, hcache, -⟩ := (h.threads t th ht).bound f hf
      exact ⟨ctx, hctx, hcache⟩

/-- A change to a context that leaves its box and, on a thread that uses it, its
slot alone. -/
theorem Inv.mapCtx (h : Inv s) {g : LFIContext → LFIContext} (hbox : ∀ ctx, (g ctx).box = ctx.box)
    (hr14 : ∀ ctx, (g ctx).r14 = ctx.r14)
    (hcache : ∀ u, s.Uses u c → ∀ ctx, s.ctxs c = some ctx → (g ctx).gsCache = u) :
    Inv (s.mapCtx c g) := by
  apply h.setCtx
  · intro ctx' hctx'
    obtain ⟨ctx, hctx, rfl⟩ := Option.map_eq_some_iff.mp hctx'
    rw [hr14, hbox]
    exact h.ctxs c ctx hctx
  · intro u hu old hold
    exact ⟨g old, by rw [hold, Option.map_some], hbox old, hcache u hu old hold⟩

theorem Inv.mapCtx_flag (h : Inv s) {g : LFIContext → LFIContext}
    (hg : ∀ ctx, (g ctx).box = ctx.box ∧ (g ctx).r14 = ctx.r14 ∧ (g ctx).gsCache = ctx.gsCache) :
    Inv (s.mapCtx c g) := by
  apply h.mapCtx (fun ctx => (hg ctx).1) fun ctx => (hg ctx).2.1
  intro u hu ctx hctx
  obtain ⟨ctx', hctx', hcache⟩ := h.uses hu
  obtain rfl := Option.some.inj (hctx.symm.trans hctx')
  rw [(hg ctx).2.2, hcache]

/-! `seg_gs_set` on a thread whose own slot is the one at `gs_cache`. -/

def loadGs (th : Thread) : Thread := { th with gs := th.r14, gsBase := th.r14 }

def Thread.setGs (cached : Bool) (th : Thread) : Thread :=
  if cached then if th.gsBase = th.r14 then th else loadGs th else { th with gs := th.r14 }

theorem segGsSet_uncached (hth : s.threads t = some th) :
    segGsSet false t c s = some (s.mapThread t (Thread.setGs false)) := by
  simp only [segGsSet, hth, Option.bind_eq_bind, Option.bind_some]
  rfl

theorem segGsSet_own (hth : s.threads t = some th) (hctx : s.ctxs c = some ctx)
    (hbound : ctx.gsCache = t) :
    segGsSet true t c s = some (s.mapThread t (Thread.setGs true)) := by
  simp only [segGsSet, hth, hctx, hbound, if_true, Option.bind_eq_bind, Option.bind_some]
  split
  · rename_i hhit
    rw [mapThread_of_fixed hth]
    simp [Thread.setGs, hhit]
  · rename_i hmiss
    rw [mapThread_mapThread, mapThread_of_eq hth, mapThread_of_eq hth]
    simp [Thread.setGs, hmiss, loadGs]

/-- A slot that is right saves nothing but the write. -/
theorem setGs_cached (hslot : th.gsBase = th.gs ∨ th.gsBase = 0) (hne : th.r14 ≠ 0) :
    th.setGs true = loadGs th := by
  unfold Thread.setGs
  simp only [if_true]
  split
  · rename_i hhit
    have hgs : th.gsBase = th.gs := hslot.resolve_right fun h0 => hne (hhit.symm.trans h0)
    obtain ⟨gs, r14, gsBase, frames⟩ := th
    simp only at hgs hhit
    rw [loadGs, ← hhit, ← hgs]
  · rfl

theorem segGsSet_cached (hth : s.threads t = some th) (hctx : s.ctxs c = some ctx)
    (hbound : ctx.gsCache = t) (hslot : th.gsBase = th.gs ∨ th.gsBase = 0) (hne : th.r14 ≠ 0) :
    segGsSet true t c s = some (s.mapThread t loadGs) := by
  rw [segGsSet_own hth hctx hbound, mapThread_of_eq hth, mapThread_of_eq hth,
    setGs_cached hslot hne]

/-! What the two builds share. -/

def Thread.forget (th : Thread) : Thread := { th with gsBase := 0 }

def LFIContext.forget (ctx : LFIContext) : LFIContext := { ctx with gsCache := 0 }

/-- A state without the cache. -/
def State.forget (s : State) : State :=
  ⟨fun t => (s.threads t).map Thread.forget, fun c => (s.ctxs c).map LFIContext.forget⟩

/-- The outcome `o` of a step with the cache, and `o'` of the step without. -/
def Matches (o o' : Option State) : Prop :=
  o' = o.map State.forget ∧ ∀ s, o = some s → Inv s

theorem matches_some (h : Inv s) (heq : s' = s.forget) : Matches (some s) (some s') := by
  refine ⟨congrArg some heq, ?_⟩
  rintro _ ⟨⟩
  exact h

theorem matches_none : Matches none none := by
  refine ⟨rfl, ?_⟩
  rintro _ ⟨⟩

theorem forget_setThread (th : Option Thread) :
    (s.setThread t th).forget = s.forget.setThread t (th.map Thread.forget) := by
  simp only [State.forget, State.setThread, State.mk.injEq, and_true]
  funext u
  by_cases hut : u = t
  · subst hut
    simp
  · simp [hut]

theorem forget_setCtx (ctx : Option LFIContext) :
    (s.setCtx c ctx).forget = s.forget.setCtx c (ctx.map LFIContext.forget) := by
  simp only [State.forget, State.setCtx, State.mk.injEq, true_and]
  funext d
  by_cases hdc : d = c
  · subst hdc
    simp
  · simp [hdc]

theorem forget_frames : s.forget.frames t = s.frames t := by
  cases ht : s.threads t <;> simp [State.frames, State.forget, Thread.forget, ht]

theorem forget_mapCtx {g g' : LFIContext → LFIContext}
    (hg : ∀ ctx, (g ctx).forget = g' ctx.forget) :
    (s.mapCtx c g).forget = s.forget.mapCtx c g' := by
  rw [State.mapCtx, forget_setCtx, State.mapCtx]
  congr 1
  cases hc : s.ctxs c <;> simp [State.forget, hc, hg]

theorem forget_setAbort {abort : Bool} (ctx : LFIContext) :
    (ctx.setAbort abort).forget = ctx.forget.setAbort abort := rfl

theorem forget_setInCtxRun {running : Bool} (ctx : LFIContext) :
    (ctx.setInCtxRun running).forget = ctx.forget.setInCtxRun running := rfl

theorem forget_mapThread {g g' : Thread → Thread}
    (hg : ∀ th, (g th).forget = g' th.forget) :
    (s.mapThread t g).forget = s.forget.mapThread t g' := by
  rw [State.mapThread, forget_setThread, State.mapThread]
  congr 1
  cases ht : s.threads t <;> simp [State.forget, ht, hg]

theorem forget_setFrames : (s.setFrames t fs).forget = s.forget.setFrames t fs :=
  forget_mapThread fun _ => rfl

theorem forget_thread (h : s.threads t = some th) : s.forget.threads t = some th.forget := by
  simp [State.forget, h]

theorem forget_ctx (h : s.ctxs c = some ctx) : s.forget.ctxs c = some ctx.forget := by
  simp [State.forget, h]

/-! The steps. -/

theorem Inv.bindGs (h : Inv s) (huses : ∀ u, u ≠ t → ¬s.Uses u c) :
    Inv (bindGs true t c s) := by
  refine h.mapCtx (g := fun ctx => { ctx with gsCache := t }) (fun _ => rfl) (fun _ => rfl) ?_
  intro u hu _ _
  by_contra hut
  exact huses u (fun heq => hut heq.symm) hu

theorem bindGs_ctx (hctx : s.ctxs c = some ctx) :
    (bindGs true t c s).ctxs c = some { ctx with gsCache := t } := by
  simp [GsCache.bindGs, State.mapCtx, State.setCtx, hctx]

theorem forget_bindGs : (bindGs true t c s).forget = s.forget := by
  have hbind := forget_mapCtx (s := s) (c := c) (g := fun ctx => { ctx with gsCache := t })
    (fun ctx => (rfl : _ = id ctx.forget))
  rw [GsCache.bindGs, if_pos rfl, hbind]
  simp [State.mapCtx, State.setCtx]

/-- `enter` with the cache, on a context that is bound. -/
theorem enter_cached (h : Inv s) (hth : s.threads t = some th) (hctx : s.ctxs f.ctx = some ctx) :
    enter true f t s = some ((bindGs true t f.ctx s).setThread t
      (some ⟨ctx.box.base, ctx.box.base, ctx.box.base, f :: th.frames⟩)) := by
  have hr14 : ctx.r14 = ctx.box.base := h.ctxs _ _ hctx
  have hth₁ : (bindGs true t f.ctx s).threads t = some th := hth
  have hload := segGsSet_cached (c := f.ctx)
    (thread_mapThread hth₁ fun th => { th with r14 := ctx.r14 })
    (bindGs_ctx hctx) rfl (h.threads t th hth).slot (by rw [hr14]; exact ctx.box.base_ne)
  simp only [enter, hctx, hload, Option.bind_eq_bind, Option.bind_some]
  rw [mapThread_mapThread, mapThread_mapThread, mapThread_of_eq hth₁, ← hr14]
  rfl

theorem enter_uncached (hth : s.threads t = some th) (hctx : s.ctxs f.ctx = some ctx) :
    enter false f t s =
      some (s.setThread t (some ⟨ctx.r14, ctx.r14, th.gsBase, f :: th.frames⟩)) := by
  have hload := segGsSet_uncached (c := f.ctx)
    (thread_mapThread hth fun th => { th with r14 := ctx.r14 })
  simp only [enter, hctx, GsCache.bindGs, hload, Option.bind_eq_bind, Option.bind_some,
    Bool.false_eq_true, if_false]
  rw [mapThread_mapThread, mapThread_mapThread, mapThread_of_eq hth]
  rfl

/-- Any of the ways into the sandbox from host code. -/
theorem enter_matches (h : Inv s) (hframe : f.entersBox) (hsaved : f.saved = none)
    (hhost : s.OnHost t) (huses : ∀ u, u ≠ t → ¬s.Uses u f.ctx) :
    Matches (enter true f t s) (enter false f t s.forget) := by
  obtain ⟨th, hth⟩ := Option.isSome_iff_exists.mp hhost.1
  cases hctx : s.ctxs f.ctx with
  | none =>
      have hctx' : s.forget.ctxs f.ctx = none := by simp [State.forget, hctx]
      simp only [enter, hctx, hctx', Option.bind_eq_bind, Option.bind_none]
      exact matches_none
  | some ctx =>
      have hbind : Inv (bindGs true t f.ctx s) := h.bindGs huses
      have hok : ThreadOk (bindGs true t f.ctx s).ctxs t th := hbind.threads t th hth
      rw [enter_cached h hth hctx, enter_uncached (forget_thread hth) (forget_ctx hctx)]
      apply matches_some
      · apply hbind.setThread
        rintro _ ⟨⟩
        refine @threadOk_load t { ctx with gsCache := t } _ _ ⟨?_, hok.nested⟩ ?_ ?_
        · rw [if_pos hframe, ← frames_of_eq hth]
          exact hhost.2
        · intro f' hf'
          rcases List.mem_cons.mp hf' with rfl | hf'
          · refine ⟨_, bindGs_ctx hctx, rfl, ?_⟩
            rw [hsaved]
            rintro _ ⟨⟩
          · exact hok.bound f' hf'
        · rintro _ ⟨⟩
          exact bindGs_ctx hctx
      · rw [forget_setThread, forget_bindGs]
        simp only [Option.map_some, Thread.forget, LFIContext.forget, h.ctxs _ _ hctx]

theorem resume_matches (h : Inv s) (hth : s.threads t = some th) (hfs : th.frames = f :: fs)
    {r14 : W} (hsaved : f.saved = some r14) :
    Matches (resume true t f.ctx r14 fs s) (resume false t f.ctx r14 fs s.forget) := by
  have hok : ThreadOk s.ctxs t th := h.threads t th hth
  obtain ⟨ctx, hctx, hcache, hbase⟩ := hok.bound f (by simp [hfs])
  have hr14 : r14 = ctx.box.base := hbase r14 hsaved
  have hnested : Nested (f :: fs) := hfs ▸ hok.nested
  have hhost : f.entersBox = false := by cases f <;> first | rfl | cases hsaved
  obtain ⟨g, hg, -, hgctx⟩ := by simpa [Nested, hhost] using hnested.1
  have hload := segGsSet_cached (c := f.ctx)
    (thread_mapThread hth fun th => { th with r14 := r14, frames := fs })
    hctx hcache hok.slot (by rw [hr14]; exact ctx.box.base_ne)
  have hload' := segGsSet_uncached (c := f.ctx)
    (thread_mapThread (forget_thread hth) fun th => { th with r14 := r14, frames := fs })
  simp only [resume, hload, hload']
  rw [mapThread_mapThread, mapThread_mapThread]
  apply matches_some
  · rw [mapThread_of_eq hth]
    apply h.setThread
    rintro _ ⟨⟩
    simp only [Function.comp_def, loadGs, hr14]
    refine threadOk_load hnested.2 ?_ ?_
    · intro f' hf'
      exact hok.bound f' (by simp [hfs, hf'])
    · intro f' hf'
      obtain rfl := Option.some.inj (hf'.symm.trans hg)
      rw [hgctx, hctx]
  · symm
    apply forget_mapThread
    intro th
    rfl

theorem Inv.setFrames (h : Inv s)
    (hok : ∀ th, s.threads t = some th → ThreadOk s.ctxs t { th with frames := fs }) :
    Inv (s.setFrames t fs) := by
  apply h.setThread
  intro th' hth'
  obtain ⟨th, hth, rfl⟩ := Option.map_eq_some_iff.mp hth'
  exact hok th hth

theorem Inv.setFrames_pop (h : Inv s) (hsuffix : fs <:+ s.frames t) (hhost : AboveHost fs) :
    Inv (s.setFrames t fs) := by
  apply h.setFrames
  intro th hth
  exact (h.threads t th hth).pop (by rwa [← frames_of_eq hth]) hhost

theorem Inv.nested (h : Inv s) : Nested (s.frames t) := by
  cases ht : s.threads t with
  | none => simp [frames, ht, Nested]
  | some th =>
      rw [frames_of_eq ht]
      exact (h.threads t th ht).nested

theorem lfiRet_matches (h : Inv s) : Matches (lfiRet t s) (lfiRet t s.forget) := by
  unfold lfiRet
  rw [forget_frames]
  split
  · rename_i c fs hfs
    have hnested : Nested (.invoke c :: fs) := hfs ▸ h.nested
    apply matches_some
    · exact h.setFrames_pop (by simp [hfs]) hnested.1
    · exact forget_setFrames.symm
  · exact matches_none

theorem leave_matches (h : Inv s) (push : Nat → W → Frame)
    (hpush : ∀ c r14, (push c r14).entersBox = false ∧ (push c r14).ctx = c ∧
      (push c r14).saved = some r14) {leave : State → Option State}
    (hleave : ∀ s, leave s = (do
      let th ← s.threads t
      let f ← th.frames.head?
      if f.entersBox then some (s.setFrames t (push f.ctx th.r14 :: th.frames)) else none)) :
    Matches (leave s) (leave s.forget) := by
  rw [hleave, hleave]
  cases hth : s.threads t with
  | none =>
      have hth' : s.forget.threads t = none := by simp [State.forget, hth]
      simp only [hth', Option.bind_eq_bind, Option.bind_none]
      exact matches_none
  | some th =>
      simp only [forget_thread hth, Thread.forget, Option.bind_eq_bind, Option.bind_some]
      cases hf : th.frames.head? with
      | none => exact matches_none
      | some f =>
          obtain ⟨hhost, hctx, hsaved⟩ := hpush f.ctx th.r14
          simp only [Option.bind_some]
          split
          · rename_i hbox
            apply matches_some
            · apply h.setFrames
              intro th' hth'
              obtain rfl := Option.some.inj (hth.symm.trans hth')
              exact (h.threads t th hth).leave hf hbox hhost hctx hsaved
            · exact forget_setFrames.symm
          · exact matches_none

theorem lfiCallback_matches (h : Inv s) : Matches (lfiCallback t s) (lfiCallback t s.forget) :=
  leave_matches h .callback (fun _ _ => ⟨rfl, rfl, rfl⟩) fun _ => rfl

theorem lfiSyscallEntry_matches (h : Inv s) :
    Matches (lfiSyscallEntry t s) (lfiSyscallEntry t s.forget) :=
  leave_matches h .syscall (fun _ _ => ⟨rfl, rfl, rfl⟩) fun _ => rfl

theorem lfiSyscallEnd_matches (h : Inv s) :
    Matches (lfiSyscallEnd true t s) (lfiSyscallEnd false t s.forget) := by
  unfold lfiSyscallEnd
  rw [forget_frames]
  split
  · rename_i c r14 fs hfs
    obtain ⟨th, hth, hframes⟩ := thread_of_frames hfs
    exact resume_matches h hth hframes rfl
  · exact matches_none

theorem lfiCallbackEnd_matches (h : Inv s) :
    Matches (lfiCallbackEnd true t s) (lfiCallbackEnd false t s.forget) := by
  unfold lfiCallbackEnd
  rw [forget_frames]
  split
  · rename_i c r14 fs hfs
    obtain ⟨th, hth, hframes⟩ := thread_of_frames hfs
    obtain ⟨ctx, hctx, -⟩ := (h.threads t th hth).bound (.callback c r14) (by simp [hframes])
    have hctx' : s.forget.ctxs c = some ctx.forget := forget_ctx hctx
    simp only [Frame.ctx] at hctx
    simp only [hctx, hctx', LFIContext.forget, Option.bind_eq_bind, Option.bind_some]
    split
    · -- an aborted callback leaves the segment base to whatever runs next
      split
      · rename_i d fs
        have hnested : Nested (.callback c r14 :: .invoke d :: fs) := hfs ▸ h.nested
        have hflag : Inv (s.mapCtx c (LFIContext.setAbort false)) :=
          h.mapCtx_flag fun _ => ⟨rfl, rfl, rfl⟩
        apply matches_some
        · apply hflag.setFrames_pop
          · exact ⟨[.callback c r14, .invoke d], hfs.symm⟩
          · exact hnested.2.1
        · rw [forget_setFrames, forget_mapCtx forget_setAbort]
      · exact matches_none
    · exact resume_matches h hth hframes rfl
  · exact matches_none

theorem lfiCtxExit_matches (h : Inv s) : Matches (lfiCtxExit t c s) (lfiCtxExit t c s.forget) := by
  unfold lfiCtxExit
  cases hctx : s.ctxs c with
  | none =>
      have hctx' : s.forget.ctxs c = none := by simp [State.forget, hctx]
      simp only [hctx', Option.bind_eq_bind, Option.bind_none]
      exact matches_none
  | some ctx =>
      simp only [forget_ctx hctx, LFIContext.forget, forget_frames, Option.bind_eq_bind,
        Option.bind_some]
      split
      · split
        · rename_i d r14 e fs hfs
          have hsuffix : .syscall d r14 :: .run e :: fs <:+ s.frames t :=
            hfs ▸ List.dropWhile_suffix _
          have hnested : Nested (.syscall d r14 :: .run e :: fs) := h.nested.suffix hsuffix
          have hflag : Inv (s.mapCtx c (LFIContext.setInCtxRun false)) :=
            h.mapCtx_flag fun _ => ⟨rfl, rfl, rfl⟩
          apply matches_some
          · apply hflag.setFrames_pop
            · exact List.IsSuffix.trans ⟨[.syscall d r14, .run e], rfl⟩ hsuffix
            · exact hnested.2.1
          · rw [forget_setFrames, forget_mapCtx forget_setInCtxRun]
        · exact matches_none
      · exact matches_none

/-- What one step does: the same in both builds, but for the cache. -/
theorem perform_matches (h : Inv s) (ha : Allowed s a) :
    Matches (perform true s a) (perform false s.forget a) := by
  cases a with
  | spawn t gs =>
      apply matches_some
      · apply h.setThread
        rintro _ ⟨⟩
        refine ⟨.inr rfl, trivial, ?_, ?_⟩ <;> simp [Thread.start]
      · rw [forget_setThread]
        rfl
  | exit t =>
      apply matches_some
      · apply h.setThread
        rintro _ ⟨⟩
      · rw [forget_setThread]
        rfl
  | ctxNew t c box =>
      apply matches_some
      · apply h.setCtx
        · rintro _ ⟨⟩
          rfl
        · intro u _ old hold
          rw [ha.2] at hold
          cases hold
      · rw [forget_setCtx]
        rfl
  | ctxFree t c =>
      apply matches_some
      · apply h.setCtx
        · rintro _ ⟨⟩
        · intro u hu
          exact absurd hu (ha.2 u)
      · rw [forget_setCtx]
        rfl
  | abortCb t c =>
      apply matches_some
      · exact h.mapCtx_flag fun _ => ⟨rfl, rfl, rfl⟩
      · exact (forget_mapCtx forget_setAbort).symm
  | invoke t c => exact enter_matches h rfl rfl ha.1 ha.2
  | ret t => exact lfiRet_matches h
  | callback t => exact lfiCallback_matches h
  | callbackEnd t => exact lfiCallbackEnd_matches h
  | syscall t => exact lfiSyscallEntry_matches h
  | syscallEnd t => exact lfiSyscallEnd_matches h
  | run t c =>
      have hflag : Inv (s.mapCtx c (LFIContext.setInCtxRun true)) :=
        h.mapCtx_flag fun _ => ⟨rfl, rfl, rfl⟩
      have henter := enter_matches (f := .run c) hflag rfl rfl ha.1 ha.2
      rwa [forget_mapCtx forget_setInCtxRun] at henter
  | ctxExit t c => exact lfiCtxExit_matches h

theorem forget_uses {u : Nat} : s.forget.Uses u c ↔ s.Uses u c := by
  simp only [State.Uses, forget_frames]

theorem forget_onHost : s.forget.OnHost t ↔ s.OnHost t := by
  have hsome : (s.forget.threads t).isSome = (s.threads t).isSome := by simp [State.forget]
  simp only [State.OnHost, forget_frames, hsome]

theorem allowed_forget : Allowed s.forget a ↔ Allowed s a := by
  cases a with
  | spawn t gs => simp [Allowed, State.forget]
  | exit t => simp [Allowed, forget_frames]
  | ctxNew t c box =>
      have hctx : s.forget.ctxs c = none ↔ s.ctxs c = none := by simp [State.forget]
      simp only [Allowed, forget_onHost, hctx]
  | _ => simp only [Allowed, forget_uses, forget_onHost]

theorem step_inv (h : Inv s) (hstep : Step true s a s') : Inv s' :=
  (perform_matches h hstep.1).2 s' hstep.2

theorem inv_init : Inv .init := by
  constructor <;> intro _ _ h <;> cases h

/-- The cached build does nothing that the other would not. -/
theorem trace_forget {as : List Action} (hrun : Trace (Step true) .init as s) :
    Inv s ∧ Trace (Step false) .init as s.forget := by
  refine hrun.simulate State.forget ?_ inv_init
  intro s a s' h hstep
  refine ⟨step_inv h hstep, allowed_forget.mpr hstep.1, ?_⟩
  rw [(perform_matches h hstep.1).1, hstep.2, Option.map_some]

/-- And it does whatever the other does. -/
theorem trace_lift {as : List Action} (h : Inv s) (hrun : Trace (Step false) s.forget as s') :
    ∃ s₁, Trace (Step true) s as s₁ ∧ s₁.forget = s' := by
  induction as generalizing s with
  | nil =>
      cases hrun
      exact ⟨s, .nil s, rfl⟩
  | cons a as ih =>
      rcases hrun with _ | ⟨hstep, hrest⟩
      have ha : Allowed s a := allowed_forget.mp hstep.1
      have hmatches := perform_matches h ha
      obtain ⟨s₁, hs₁, rfl⟩ := Option.map_eq_some_iff.mp (hmatches.1.symm.trans hstep.2)
      obtain ⟨s₂, hrun₂, heq⟩ := ih (hmatches.2 s₁ hs₁) hrest
      exact ⟨s₂, .cons ⟨ha, hs₁⟩ hrun₂, heq⟩

/-- In the sandbox of a box the segment base is that of the box. -/
theorem Inv.gs_eq (h : Inv s) (hth : s.threads t = some th) {box : LFIBox}
    (hruns : s.RunsIn th box) : th.gs = box.base := by
  obtain ⟨f, hf, hbox, ctx, hctx, rfl⟩ := hruns
  exact ((h.threads t th hth).top f hf hbox ctx hctx).1

/-- The cache agrees with writing `%gs` on every entry: in a run the segment base
of a thread in the sandbox is that of the box, and the runs of the two builds are
the same but for the cache itself. -/
theorem gs_cache_agrees (as : List Action) :
    (∀ s, Trace (Step true) .init as s →
      (∀ t th box, s.threads t = some th → s.RunsIn th box → th.gs = box.base) ∧
        Trace (Step false) .init as s.forget) ∧
      ∀ s', Trace (Step false) .init as s' → ∃ s, Trace (Step true) .init as s ∧ s.forget = s' := by
  constructor
  · intro s hrun
    obtain ⟨hinv, hrun'⟩ := trace_forget hrun
    exact ⟨fun t th box hth hruns => hinv.gs_eq hth hruns, hrun'⟩
  · intro s' hrun
    exact trace_lift inv_init hrun

theorem Inv.not_uses (h : Inv s) (hctx : s.ctxs c = some ctx) (hcache : ctx.gsCache = t) (u : Nat)
    (hne : u ≠ t) : ¬s.Uses u c := by
  intro huses
  obtain ⟨ctx', hctx', hcache'⟩ := h.uses huses
  obtain rfl := Option.some.inj (hctx.symm.trans hctx')
  exact hne (hcache'.symm.trans hcache)

theorem onHost_of_frames (hth : s.threads t = some th) (hframes : AboveHost th.frames) :
    s.OnHost t := by
  refine ⟨by rw [hth]; rfl, ?_⟩
  rwa [frames_of_eq hth]

theorem aboveHost_nil : AboveHost [] := by
  rintro _ ⟨⟩

theorem aboveHost_callback (r14 : W) : AboveHost (.callback c r14 :: fs) := by
  rintro _ ⟨⟩
  rfl

def boxA : LFIBox := ⟨0x1000, by decide⟩

def boxB : LFIBox := ⟨0x2000, by decide⟩

/-- The second box is entered from a callback of the first. The other thread starts
with the segment base of the first. -/
def twoBoxes : List Action :=
  [.spawn 0 0, .spawn 1 boxA.base, .ctxNew 0 0 boxA, .ctxNew 0 1 boxB, .invoke 0 0, .callback 0,
    .invoke 0 1, .ret 0, .callbackEnd 0, .run 1 1]

theorem twoBoxes_run : ∃ s th₀ th₁, Trace (Step true) .init twoBoxes s ∧
    s.threads 0 = some th₀ ∧ s.RunsIn th₀ boxA ∧ s.threads 1 = some th₁ ∧ s.RunsIn th₁ boxB := by
  have h₂ : Trace (Step true) .init [.spawn 0 0, .spawn 1 boxA.base] _ :=
    .cons ⟨rfl, rfl⟩ (.cons ⟨rfl, rfl⟩ (.nil _))
  have h₃ := h₂.snoc (l := Action.ctxNew 0 0 boxA) ⟨⟨onHost_of_frames rfl aboveHost_nil, rfl⟩, rfl⟩
  have h₄ := h₃.snoc (l := Action.ctxNew 0 1 boxB) ⟨⟨onHost_of_frames rfl aboveHost_nil, rfl⟩, rfl⟩
  have h₅ := h₄.snoc (l := Action.invoke 0 0)
    ⟨⟨onHost_of_frames rfl aboveHost_nil, (trace_forget h₄).1.not_uses rfl rfl⟩, rfl⟩
  have h₆ := h₅.snoc (l := Action.callback 0) ⟨trivial, rfl⟩
  have h₇ := h₆.snoc (l := Action.invoke 0 1)
    ⟨⟨onHost_of_frames rfl (aboveHost_callback _), (trace_forget h₆).1.not_uses rfl rfl⟩, rfl⟩
  have h₈ := h₇.snoc (l := Action.ret 0) ⟨trivial, rfl⟩
  have h₉ := h₈.snoc (l := Action.callbackEnd 0) ⟨trivial, rfl⟩
  have h₁₀ := h₉.snoc (l := Action.run 1 1) (by
    refine ⟨⟨onHost_of_frames rfl aboveHost_nil, ?_⟩, rfl⟩
    intro u _ huses
    rcases eq_or_ne u 0 with rfl | hu
    · obtain ⟨f, hf, hctx⟩ := huses
      obtain rfl := List.mem_singleton.mp hf
      cases hctx
    · exact (trace_forget h₉).1.not_uses rfl rfl u hu huses)
  exact ⟨_, _, _, h₁₀, rfl, ⟨_, rfl, rfl, _, rfl, rfl⟩, rfl, ⟨_, rfl, rfl, _, rfl, rfl⟩⟩

theorem twoBoxes_agrees : ∃ s th₀ th₁, Trace (Step false) .init twoBoxes (State.forget s) ∧
    s.threads 0 = some th₀ ∧ th₀.gs = boxA.base ∧ s.threads 1 = some th₁ ∧ th₁.gs = boxB.base := by
  obtain ⟨s, th₀, th₁, hrun, hth₀, hruns₀, hth₁, hruns₁⟩ := twoBoxes_run
  obtain ⟨hgs, hrun'⟩ := (gs_cache_agrees twoBoxes).1 s hrun
  exact ⟨s, th₀, th₁, hrun', hth₀, hgs 0 th₀ boxA hth₀ hruns₀, hth₁, hgs 1 th₁ boxB hth₁ hruns₁⟩

end LfiRuntime.GsCache
