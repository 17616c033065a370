import Mathlib.Tactic
import LfiRuntime.Box.BoxNew
import LfiRuntime.Box.MapSpec
import LfiRuntime.Lib.Blocks
import LfiRuntime.Linux.Path

/-!
`lfi_proc_new`, `lfi_thread_new` and `thread_clone`: what they take, and what they give
back when they fail.
-/

namespace LfiRuntime.ProcNew

open LfiRuntime.Blocks
open LfiRuntime.Box
open LfiRuntime.BoxNew
open LfiRuntime.Boxmap hiding Host
open LfiRuntime.Config
open LfiRuntime.Cwalk
open LfiRuntime.HostCalls
open LfiRuntime.Mmap
open LfiRuntime.PagedMemory
open LfiRuntime.Path
open LfiRuntime.Runs

/-- The engine, with what `lfi_proc_new` reads of its options and of the host. -/
structure LFILinuxEngine where
  engine : Engine
  rt : Runtime
  wd : Option Str
  dirMaps : Option (List Str)
  hostCheckdir : Str → Int

/-- The engine's boxes, and what has been allocated. -/
structure EngineState where
  world : World
  heap : Heap

/-- A box, with the block it is in and that of its `mm`. -/
structure BoxPtr where
  box : KeyedBox
  ptr : Nat
  mm : Nat

/-- A process, with the block it is in and that of `futexes`. -/
structure LFILinuxProc where
  ptr : Nat
  box : BoxPtr
  cwd : Str
  futexes : Option Nat

/-- What the host answers to `lfi_proc_new`. No futexes are allocated on Linux. -/
structure ProcAnswers where
  box : BoxNew.Answers
  calloc : Bool
  futexes : Bool

namespace EngineState

variable (le : LFILinuxEngine)

/-- `mmap_create`, with the block. -/
def mmapCreate (l : Heap) (a : BoxNew.Answers) (min max : Nat) : Option AddrSpace × Heap :=
  if a.mmapCreate then
    match World.mmapCreate le.engine a min max with
    | none => (none, l.alloc.free l.issued)
    | some mm => (some mm, l.alloc)
  else (none, l)

/-- `lfi_box_new`, with the blocks. -/
def lfiBoxNew (s : EngineState) (a : BoxNew.Answers) : Option BoxPtr × EngineState :=
  let e := le.engine
  if !a.malloc then (none, s)
  else
    let ptr := s.heap.issued
    let heap := s.heap.alloc
    let size := e.opts.boxsize
    let space := boxmapAddspace s.world.map (boxFootprint e.target size)
    let base := space.1
    let w := { s.world with map := space.2 }
    if base = 0 then (none, ⟨w, heap.free ptr⟩)
    else
      match w.newKey e a base with
      | none => (none, ⟨w.rmspace e base, heap.free ptr⟩)
      | some (pkey, w) =>
        let minOff := max e.target.boxInternalGuard e.opts.pagesize
        let min := base + minOff
        let max := base + size - e.target.boxInternalGuard
        match w.syssetup e le.rt a base pkey with
        | (false, w) => (none, ⟨(w.pkeyFree e pkey).rmspace e base, heap.free ptr⟩)
        | (true, w) =>
          if !a.mutexInit then (none, ⟨(w.pkeyFree e pkey).rmspace e base, heap.free ptr⟩)
          else
            match mmapCreate le heap a min max with
            | (none, heap) => (none, ⟨(w.pkeyFree e pkey).rmspace e base, heap.free ptr⟩)
            | (some mm, heap') =>
              let box : KeyedBox := ⟨⟨base, size, min, max, mm, 0⟩, pkey, none⟩
              (some ⟨box, ptr, heap.issued⟩, ⟨{ w with boxes := box :: w.boxes }, heap'⟩)

/-- `lfi_box_free`. The table of callbacks is `len` bytes long. -/
def lfiBoxFree (s : EngineState) (b : BoxPtr) (len : Nat) : EngineState :=
  ⟨s.world.lfiBoxFree le.engine b.box len, (s.heap.free b.mm).free b.ptr⟩

/-- `lfi_proc_new`. -/
def lfiProcNew (s : EngineState) (a : ProcAnswers) : Option LFILinuxProc × EngineState :=
  match s.lfiBoxNew le a.box with
  | (none, s) => (none, s)
  | (some box, s) =>
    if !a.calloc then (none, s.lfiBoxFree le box 0)
    else
      let ptr := s.heap.issued
      let s := { s with heap := s.heap.alloc }
      let r := le.wd.elim (0, []) fun wd => procChdir le.dirMaps le.hostCheckdir [] wd
      if r.1 ≠ 0 then (none, { s with heap := s.heap.free ptr })
      else if a.futexes then
        (some ⟨ptr, box, r.2, some s.heap.issued⟩, { s with heap := s.heap.alloc })
      else (some ⟨ptr, box, r.2, none⟩, s)

end EngineState

/-- The box of a process with its host, and what has been allocated. -/
structure ProcState where
  box : LFIBox
  host : Host
  heap : Heap
  totalThreadCount : Nat

/-- The blocks of a context, the second mapped by `mmap`. -/
structure LFIContext where
  ptr : Nat
  block : Nat

structure LFILinuxThread where
  ptr : Nat
  ctx : LFIContext
  tid : Nat

/-- What the host answers to the constructors of a thread: the results of the two
`protectmem` calls of `ctx_block_init` among them. -/
structure ThreadAnswers where
  calloc : Bool
  malloc : Bool
  mmap : Bool
  sysPage : Bool
  ctxreg : Bool
  munmap : Bool

def BASE_TID : Nat := 10000

namespace ProcState

/-- `thread_alloc`. -/
def threadAlloc (s : ProcState) (a : ThreadAnswers) : Option (Nat × Nat) × ProcState :=
  if !a.calloc then (none, s)
  else
    (some (s.heap.issued, BASE_TID + s.totalThreadCount),
      { s with heap := s.heap.alloc, totalThreadCount := s.totalThreadCount + 1 })

/-- `munmap` of the block of a context. -/
def munmapBlock (l : Heap) (a : ThreadAnswers) (block : Nat) : Heap :=
  if a.munmap then l.free block else l

/-- `lfi_ctx_new`. -/
def lfiCtxNew (l : Heap) (a : ThreadAnswers) : Option LFIContext × Heap :=
  if !a.malloc then (none, l)
  else
    let ptr := l.issued
    let l := l.alloc
    if !a.mmap then (none, l.free ptr)
    else
      let block := l.issued
      let l := l.alloc
      if !(a.sysPage && a.ctxreg) then (none, (munmapBlock l a block).free ptr)
      else (some ⟨ptr, block⟩, l)

/-- `lfi_ctx_free`. -/
def lfiCtxFree (l : Heap) (a : ThreadAnswers) (ctx : LFIContext) : Heap :=
  (munmapBlock l a ctx.block).free ctx.ptr

/-- `thread_clone`. The registers that it copies are left out. -/
def threadClone (s : ProcState) (a : ThreadAnswers) : Option LFILinuxThread × ProcState :=
  match s.threadAlloc a with
  | (none, s) => (none, s)
  | (some (t, tid), s) =>
    match lfiCtxNew s.heap a with
    | (none, heap) => (none, { s with heap := heap.free t })
    | (some ctx, heap) => (some ⟨t, ctx, tid⟩, { s with heap := heap })

def STACK_PROT : BitVec 32 := LFI_PROT_READ ||| LFI_PROT_WRITE

/-- The mapping of the stack of a main thread. -/
def mapStack (e : Engine) (stacksize : Nat) (s : ProcState) : Option Nat × LFIBox × Host :=
  if e.opts.noAslr then
    lfiBoxMapat e s.box s.host (sub64 s.box.max stacksize) stacksize STACK_PROT MAP_FLAGS (-1) 0
  else lfiBoxMapany e s.box s.host stacksize STACK_PROT MAP_FLAGS (-1) 0

/-- `lfi_thread_new` up to `stack_init`, which cannot fail: the thread and its stack. -/
def lfiThreadNew (e : Engine) (stacksize : Nat) (s : ProcState) (a : ThreadAnswers) :
    Option (LFILinuxThread × Nat) × ProcState :=
  match s.threadAlloc a with
  | (none, s) => (none, s)
  | (some (t, tid), s) =>
    match lfiCtxNew s.heap a with
    | (none, heap) => (none, { s with heap := heap.free t })
    | (some ctx, heap) =>
      match mapStack e stacksize { s with heap := heap } with
      | (none, box, host) => (none, { s with box, host, heap := (lfiCtxFree heap a ctx).free t })
      | (some stack, box, host) => (some (⟨t, ctx, tid⟩, stack), { s with box, host, heap })

end ProcState

/-- What a failed `lfi_proc_new` has to leave: the boxes, each page of the engine
inaccessible or as it was, and no block. -/
structure EngineReleased (e : Engine) (s t : EngineState) : Prop where
  bases : t.world.bases = s.world.bases
  map : t.world.map = s.world.map
  pages : ∀ x, InReservation s.world.map x →
    t.world.mem.prot (x / e.opts.pagesize) = Prot.none ∨
      t.world.mem.prot (x / e.opts.pagesize) = s.world.mem.prot (x / e.opts.pagesize)
  heap : Balanced s.heap t.heap

/-- What a failed constructor of a thread has to leave in its process. -/
structure ProcReleased (s t : ProcState) : Prop where
  table : ∀ p info, t.box.mm.table p = some info → s.box.mm.table p = some info
  pages : ∀ p, t.host.mem.prot p = Prot.none ∨ t.host.mem.prot p = s.host.mem.prot p
  heap : Balanced s.heap t.heap

/-- A failed `lfi_box_new` leaves no page accessible: it has not mapped the runtime-call
page, or has unmapped it, or the page was as accessible before. -/
def LeavesNoPage (e : Engine) (s : World) (a : BoxNew.Answers) : Prop :=
  EndsEarly e s a ∨ a.mmap.isOk = false ∨ a.protect.isOk = false ∧ a.munmap.reaches = true ∨
    ∀ x, InReservation s.map x → s.nextBase e - e.opts.pagesize ≤ x → x < s.nextBase e →
      s.mem.prot (x / e.opts.pagesize) =
        if a.protect.reaches then Prot.readOnly else Prot.readWrite

/-- With a box, the process itself is what cannot be allocated. -/
def ProcReleases (le : LFILinuxEngine) (s : EngineState) (a : ProcAnswers) : Prop :=
  (GetsBox le.engine s.world a.box → a.calloc = false) ∧
    (¬GetsBox le.engine s.world a.box → LeavesNoPage le.engine s.world a.box)

section Engine

variable {le : LFILinuxEngine} {s t : EngineState}

theorem mmapCreate_cases (le : LFILinuxEngine) (l : Heap) (a : BoxNew.Answers) (min max : Nat) :
    (World.mmapCreate le.engine a min max = none ∧
        ∃ l', EngineState.mmapCreate le l a min max = (none, l') ∧ Balanced l l') ∨
      ∃ mm, World.mmapCreate le.engine a min max = some mm ∧
        EngineState.mmapCreate le l a min max = (some mm, l.alloc) := by
  unfold EngineState.mmapCreate
  cases hmm : World.mmapCreate le.engine a min max with
  | none =>
      refine .inl ⟨rfl, ?_⟩
      split
      · exact ⟨_, rfl, (Balanced.refl _).bracket⟩
      · exact ⟨_, rfl, .refl _⟩
  | some mm =>
      refine .inr ⟨mm, rfl, ?_⟩
      unfold World.mmapCreate at hmm
      split at hmm
      · rename_i hanswer
        rw [if_pos hanswer]
      · cases hmm

/-- `lfi_box_new` is the one without blocks, and a failed call keeps none. -/
theorem lfiBoxNew_cases (le : LFILinuxEngine) (s : EngineState) (a : BoxNew.Answers) :
    (∃ w l, s.lfiBoxNew le a = (none, ⟨w, l⟩) ∧
        s.world.lfiBoxNew le.engine le.rt a = (none, w) ∧ Balanced s.heap l) ∨
      ∃ b w, s.lfiBoxNew le a =
          (some ⟨b, s.heap.issued, s.heap.issued + 1⟩, ⟨w, s.heap.alloc.alloc⟩) ∧
        s.world.lfiBoxNew le.engine le.rt a = (some b, w) := by
  have hone : Balanced s.heap (s.heap.alloc.free s.heap.issued) := (Balanced.refl _).bracket
  unfold EngineState.lfiBoxNew World.lfiBoxNew
  simp only
  split
  · exact .inl ⟨_, _, rfl, rfl, .refl _⟩
  split
  · exact .inl ⟨_, _, rfl, rfl, hone⟩
  generalize World.newKey _ _ _ _ = k
  rcases k with _ | ⟨pkey, w⟩
  · exact .inl ⟨_, _, rfl, rfl, hone⟩
  simp only
  generalize World.syssetup _ _ _ _ _ _ = setup
  rcases setup with ⟨_ | _, w⟩
  · exact .inl ⟨_, _, rfl, rfl, hone⟩
  simp only
  split
  · exact .inl ⟨_, _, rfl, rfl, hone⟩
  generalize _ + max le.engine.target.boxInternalGuard le.engine.opts.pagesize = min
  generalize _ + le.engine.opts.boxsize - le.engine.target.boxInternalGuard = max
  rcases mmapCreate_cases le s.heap.alloc a min max with ⟨hnone, l, heq, hbal⟩ | ⟨mm, hsome, heq⟩
  · rw [hnone, heq]
    exact .inl ⟨_, _, rfl, rfl, hbal.bracket⟩
  · rw [hsome, heq]
    exact .inr ⟨_, _, rfl, rfl⟩

theorem prot_of_shows {e : Engine} {w w' : World} {x : Nat} (h : w'.shows e x = w.shows e x) :
    w'.mem.prot (x / e.opts.pagesize) = w.mem.prot (x / e.opts.pagesize) := by
  have hprot : ∀ v : World, v.mem.prot (x / e.opts.pagesize) =
      ((v.shows e x).map fun y => y.1.prot).getD Prot.none := by
    intro v
    unfold World.shows Memory.prot
    cases v.mem.pages (x / e.opts.pagesize) <;> rfl
  rw [hprot, hprot, h]

theorem prot_of_shows_some {e : Engine} {w : World} {x : Nat} {v : Page × Nat × UInt8 × Cell}
    (h : w.shows e x = some v) : w.mem.prot (x / e.opts.pagesize) = v.1.prot := by
  unfold World.shows at h
  unfold Memory.prot
  cases hpg : w.mem.pages (x / e.opts.pagesize) with
  | none =>
      rw [hpg] at h
      cases h
  | some pg =>
      rw [hpg] at h
      cases h
      rfl

theorem prot_of_shows_none {e : Engine} {w : World} {x : Nat} (h : w.shows e x = none) :
    w.mem.prot (x / e.opts.pagesize) = Prot.none := by
  unfold World.shows at h
  unfold Memory.prot
  cases hpg : w.mem.pages (x / e.opts.pagesize) with
  | none => rfl
  | some pg =>
      rw [hpg] at h
      cases h

theorem prot_or_of_keyed {e : Engine} {a : BoxNew.Answers} {w w' : World} {base pkey : Nat}
    (h : Keyed e a w base pkey w') (x : Nat) :
    w'.mem.prot (x / e.opts.pagesize) = Prot.none ∨
      w'.mem.prot (x / e.opts.pagesize) = w.mem.prot (x / e.opts.pagesize) := by
  have hshows := h.shows x
  split at hshows
  · rcases hx : w.shows e x with _ | v
    · rw [hx] at hshows
      exact .inl (prot_of_shows_none hshows)
    · rw [hx] at hshows
      exact .inl (prot_of_shows_some hshows)
  · exact .inr (prot_of_shows hshows)

theorem pages_iff_of_failed {e : Engine} {rt : Runtime} {a : BoxNew.Answers} {w w' : World}
    (h : Failed e rt a w w') :
    (∀ x, InReservation w.map x → w'.mem.prot (x / e.opts.pagesize) = Prot.none ∨
        w'.mem.prot (x / e.opts.pagesize) = w.mem.prot (x / e.opts.pagesize)) ↔
      LeavesNoPage e w a := by
  rcases h with ⟨hearly, -, -, -, hshows⟩ | ⟨hlate, -, -, -, hkeyed, hpage⟩
  · exact iff_of_true (fun x _ => .inr (prot_of_shows (congrFun hshows x))) (.inl hearly)
  rename_i w₁ pkey
  -- a page that is not reached
  have hout : ∀ x, ¬(a.mmap.reaches = true ∧ w.nextBase e - e.opts.pagesize ≤ x ∧
      x < w.nextBase e) → w'.mem.prot (x / e.opts.pagesize) = Prot.none ∨
        w'.mem.prot (x / e.opts.pagesize) = w.mem.prot (x / e.opts.pagesize) := by
    intro x hnot
    have hsame := hpage x
    rw [if_neg hnot] at hsame
    rw [prot_of_shows hsame]
    exact prot_or_of_keyed hkeyed x
  have hlast : ∀ x, a.mmap.reaches = true ∧ w.nextBase e - e.opts.pagesize ≤ x ∧
      x < w.nextBase e → w'.mem.prot (x / e.opts.pagesize) =
        if a.mmap.isOk = false ∨ a.protect.isOk = false ∧ a.munmap.reaches = true then Prot.none
        else if a.protect.reaches then Prot.readOnly else Prot.readWrite := by
    intro x hin
    have hx := hpage x
    rw [if_pos hin, lastPage] at hx
    split at hx
    · rename_i hgone
      rw [if_pos hgone, prot_of_shows_none hx]
    · rename_i hgone
      rw [if_neg hgone]
      split at hx
      · rename_i hprotect
        rw [if_pos hprotect, prot_of_shows_some hx]
      · rename_i hprotect
        rw [if_neg hprotect, prot_of_shows_some hx]
  by_cases hgone : a.mmap.isOk = false ∨ a.protect.isOk = false ∧ a.munmap.reaches = true
  · refine iff_of_true (fun x _ => ?_) (.inr (hgone.imp_right .inl))
    by_cases hin : a.mmap.reaches = true ∧ w.nextBase e - e.opts.pagesize ≤ x ∧ x < w.nextBase e
    · rw [hlast x hin, if_pos hgone]
      exact .inl rfl
    · exact hout x hin
  have hmmap : a.mmap.reaches = true :=
    Outcome.reaches_of_isOk (Bool.eq_true_of_not_eq_false fun hno => hgone (.inl hno))
  constructor
  · intro hall
    refine .inr (.inr (.inr fun x hx hlo hhi => ?_))
    have hor := hall x hx
    rw [hlast x ⟨hmmap, hlo, hhi⟩, if_neg hgone] at hor
    refine (hor.resolve_left ?_).symm
    split <;> decide
  · intro hleaves x hx
    by_cases hin : a.mmap.reaches = true ∧ w.nextBase e - e.opts.pagesize ≤ x ∧ x < w.nextBase e
    swap
    · exact hout x hin
    rcases hleaves with hearly | hno | hno | hstands
    · exact absurd hearly hlate
    · exact absurd (.inl hno) hgone
    · exact absurd (.inr hno) hgone
    · rw [hlast x hin, if_neg hgone, hstands x hx hin.2.1 hin.2.2]
      exact .inr rfl

/-- A box that is freed right after it has been made. -/
theorem released_boxFree {e : Engine} {w w' : World} {b : KeyedBox} {l : Heap}
    (hsane : EngineSane e w) (hmade : Made e w b w') (le : LFILinuxEngine) (he : le.engine = e) :
    EngineReleased e ⟨w, l⟩
      (EngineState.lfiBoxFree le ⟨w', l.alloc.alloc⟩ ⟨b, l.issued, l.issued + 1⟩ 0) := by
  subst he
  obtain ⟨spans, hdis, hinv⟩ := hsane.inv
  obtain ⟨hmap, hbases⟩ := lfiBoxFree_rest le.engine w' b 0
  refine ⟨?_, ?_, fun x _ => ?_, ?_⟩
  · show (w'.lfiBoxFree le.engine b 0).bases = w.bases
    rw [hbases, hmade.bases, hmade.base, List.erase_cons_head]
  · show (w'.lfiBoxFree le.engine b 0).map = w.map
    rw [hmap, hmade.map, hmade.base]
    exact hinv.rmspace_addspace hdis hsane.footprint hmade.ne
  · have hmem : (w'.lfiBoxFree le.engine b 0).mem = w'.mem.mmapFixed le.engine.opts.pagesize
        (b.box.base - le.engine.opts.pagesize) (b.box.size + le.engine.opts.pagesize) Prot.none
        .anon := by
      unfold World.lfiBoxFree World.pkeyFree
      rw [hmade.table]
      simp only
      split
      · rfl
      · split <;> rfl
    show (w'.lfiBoxFree le.engine b 0).mem.prot _ = Prot.none ∨
      (w'.lfiBoxFree le.engine b 0).mem.prot _ = w.mem.prot _
    rw [hmem, Memory.prot_mmapFixed]
    split
    · exact .inl rfl
    · rename_i hout
      have hpage := hsane.pageBefore hmade.ne
      have hle := hpage.le
      refine .inr (prot_of_shows (hmade.shows x fun hin => hout ?_))
      rw [hmade.base, hmade.size]
      exact inSpan_of_mem hpage.pos hin.1 (by omega)
  · exact Balanced.bracket (Balanced.refl _).bracket

/-- One failed `lfi_proc_new`. -/
theorem procNew_released_iff {a : ProcAnswers} (hsane : EngineSane le.engine s.world)
    (hfail : s.lfiProcNew le a = (none, t)) :
    EngineReleased le.engine s t ↔ ProcReleases le s a := by
  unfold EngineState.lfiProcNew at hfail
  rcases lfiBoxNew_cases le s a.box with ⟨w, l, heq, hnone, hbal⟩ | ⟨b, w, heq, hsome⟩
  · rw [heq] at hfail
    obtain rfl := (Prod.mk.inj hfail).2
    rcases BoxNew.lfiBoxNew_cases hsane le.rt a.box with ⟨w', heq', hno, hfailed⟩ | ⟨b, w', heq', -⟩
    swap
    · cases hnone.symm.trans heq'
    obtain rfl := (Prod.mk.inj (hnone.symm.trans heq')).2
    have hpages := pages_iff_of_failed hfailed
    constructor
    · intro hrel
      exact ⟨fun hgets => absurd hgets hno, fun _ => hpages.mp hrel.pages⟩
    · intro hrel
      obtain ⟨hmap, hboxes⟩ : w.map = s.world.map ∧ w.boxes = s.world.boxes := by
        rcases hfailed with ⟨-, hmap, -, hboxes, -⟩ | ⟨-, hmap, -, hboxes, -, -⟩
        · exact ⟨hmap, hboxes⟩
        · exact ⟨hmap, hboxes⟩
      refine ⟨?_, hmap, hpages.mpr (hrel.2 hno), hbal⟩
      rw [World.bases, hboxes]
      rfl
  rcases BoxNew.lfiBoxNew_cases hsane le.rt a.box with ⟨w', heq', -⟩ | ⟨b', w', heq', hgets, hmade⟩
  · cases hsome.symm.trans heq'
  obtain ⟨hb, rfl⟩ := Prod.mk.inj (hsome.symm.trans heq')
  obtain rfl := Option.some.inj hb
  rw [heq] at hfail
  simp only at hfail
  split at hfail
  · rename_i hcalloc
    obtain rfl := (Prod.mk.inj hfail).2
    refine iff_of_true (released_boxFree hsane hmade le rfl)
      ⟨fun _ => ?_, fun hno => absurd hgets hno⟩
    simpa using hcalloc
  · rename_i hcalloc
    refine iff_of_false (fun hrel => ?_) fun hrel => hcalloc (by simpa using hrel.1 hgets)
    -- the box is still there
    have hbases := congrArg List.length hrel.bases
    split at hfail
    · obtain rfl := (Prod.mk.inj hfail).2
      rw [hmade.bases] at hbases
      simp at hbases
    · split at hfail <;> cases hfail

namespace EngineReleased

variable {e : Engine} {s₁ : EngineState}

theorem refl (e : Engine) (s : EngineState) : EngineReleased e s s :=
  ⟨rfl, rfl, fun _ _ => .inr rfl, .refl _⟩

theorem trans (h₁ : EngineReleased e s s₁) (h₂ : EngineReleased e s₁ t) : EngineReleased e s t := by
  refine ⟨h₂.bases.trans h₁.bases, h₂.map.trans h₁.map, fun x hx => ?_, h₁.heap.trans h₂.heap⟩
  rcases h₂.pages x (h₁.map ▸ hx) with hnone | hsame
  · exact .inl hnone
  · rw [hsame]
    exact h₁.pages x hx

theorem sane (h : EngineReleased e s t) (hsane : EngineSane e s.world) : EngineSane e t.world := by
  obtain ⟨spans, hdis, hinv⟩ := hsane.inv
  refine ⟨⟨spans, hdis, ?_⟩, hsane.footprint, hsane.boxsize, hsane.page, hsane.room⟩
  rw [h.bases, h.map]
  exact hinv

end EngineReleased

/-- A call of `lfi_proc_new` that fails. -/
def FailedProcNew (le : LFILinuxEngine) (s : EngineState) (a : ProcAnswers) (t : EngineState) :
    Prop :=
  s.lfiProcNew le a = (none, t)

theorem run_released (hsane : EngineSane le.engine s.world)
    (hrun : Reaches (FailedProcNew le) (ProcReleases le) s t) : EngineReleased le.engine s t := by
  have hinv := @Reaches.invariant _ _ _ _ (fun u => EngineReleased le.engine s u) _ _ hrun
    (.refl _ s) fun s₁ a t hrel hok hstep =>
      hrel.trans ((procNew_released_iff (hrel.sane hsane) hstep).mpr hok)
  exact hinv

end Engine

/-- Where a stack is mapped if the mapper agrees, and the host by then. -/
def stackPlace (e : Engine) (stacksize : Nat) (s : ProcState) : Option (Nat × Host) :=
  let info : MapInfo := ⟨ProcState.STACK_PROT, MAP_FLAGS, -1, 0⟩
  if e.opts.noAslr then
    let addr := sub64 s.box.max stacksize
    if lfiBoxBufvalid s.box addr stacksize then
      (s.box.mm.mapAt addr stacksize info).1.map fun _ =>
        (addr, unmapped e s.box s.host addr stacksize)
    else none
  else (s.box.mm.mapAny 0 stacksize info).1.map fun addr => (addr, s.host)

/-- A stack that cannot be taken back is where its pages were accessible before. -/
def StackReleases (e : Engine) (stacksize : Nat) (s : ProcState) : Prop :=
  ∀ addr h, stackPlace e stacksize s = some (addr, h) →
    ∀ p, InSpan e.opts.pagesize addr stacksize p → StaysOpen e h addr p →
      s.host.mem.prot p = hostProt e.target ProcState.STACK_PROT

/-- A context that has been mapped can be unmapped. -/
def CloneReleases (a : ThreadAnswers) : Prop :=
  a.calloc = false ∨ a.malloc = false ∨ a.mmap = false ∨ a.munmap = true

def ThreadReleases (e : Engine) (stacksize : Nat) (s : ProcState) (a : ThreadAnswers) : Prop :=
  CloneReleases a ∧ (a.calloc = true → a.malloc = true → a.mmap = true → a.sysPage = true →
    a.ctxreg = true → StackReleases e stacksize s)

section Thread

variable {e : Engine} {r : Region} {box : LFIBox} {h h₁ : Host} {addr size : Nat} {l : Heap}
  {s t : ProcState} {a : ThreadAnswers}

theorem pages_iff_of_undone {len : Nat} {info : MapInfo}
    (hacc : addr % e.opts.pagesize = 0 ∧ 0 < size ∧ size ≤ len ∧ addr + len < 2 ^ 64)
    (hspan : ∀ p, InSpan e.opts.pagesize addr len p → InSpan e.opts.pagesize addr size p)
    (hbefore : ∀ p, h₁.mem.prot p = Prot.none ∨ h₁.mem.prot p = h.mem.prot p)
    (hfail : (mapverify e h₁ addr size ProcState.STACK_PROT MAP_FLAGS (-1) 0 false).1 = false) :
    let h' := cbunmap e (mapverify e h₁ addr size ProcState.STACK_PROT MAP_FLAGS (-1) 0 false).2
      ⟨addr, len, info⟩
    (∀ p, h'.mem.prot p = Prot.none ∨ h'.mem.prot p = h.mem.prot p) ↔
      ∀ p, InSpan e.opts.pagesize addr size p → StaysOpen e h₁ addr p →
        h.mem.prot p = hostProt e.target ProcState.STACK_PROT := by
  intro h'
  have hread : has ProcState.STACK_PROT LFI_PROT_EXEC = false := by decide
  have hin : ∀ p, InSpan e.opts.pagesize addr size p →
      (StaysOpen e h₁ addr p → h'.mem.prot p = hostProt e.target ProcState.STACK_PROT) ∧
      (¬StaysOpen e h₁ addr p → h'.mem.prot p = Prot.none ∨ h'.mem.prot p = h₁.mem.prot p) :=
    fun p hp => @prot_undone _ _ _ _ _ _ _ _ ⟨addr, len, info⟩ hacc rfl hread hfail hp
  have hout : ∀ p, ¬InSpan e.opts.pagesize addr size p → h'.mem.prot p = h₁.mem.prot p := by
    intro p hp
    have hwithin : Within e.opts.pagesize addr size h₁ h' :=
      (within_mapverify ..).trans ((within_cbunmap ..).mono hspan)
    exact hwithin.prot hp
  have hne : hostProt e.target ProcState.STACK_PROT ≠ Prot.none := by
    intro hnone
    have hread : has ProcState.STACK_PROT LFI_PROT_READ = false := congrArg Prot.read hnone
    exact absurd hread (by decide)
  constructor
  · intro hall p hp hstays
    have hprot := (hin p hp).1 hstays
    rcases hall p with hnone | hsame
    · exact absurd (hprot.symm.trans hnone) hne
    · rw [← hsame, hprot]
  · intro hstands p
    by_cases hp : InSpan e.opts.pagesize addr size p
    · by_cases hstays : StaysOpen e h₁ addr p
      · rw [(hin p hp).1 hstays, hstands p hp hstays]
        exact .inr rfl
      · rcases (hin p hp).2 hstays with hnone | hsame
        · exact .inl hnone
        · rw [hsame]
          exact hbefore p
    · rw [hout p hp]
      exact hbefore p

/-- A stack that cannot be mapped leaves no record, and no page that was not accessible
before. -/
theorem mapStack_none (hw : Works e r s.box) (stacksize : Nat)
    (hnone : (ProcState.mapStack e stacksize s).1 = none) :
    let u := ProcState.mapStack e stacksize s
    (∀ p info, u.2.1.mm.table p = some info → s.box.mm.table p = some info) ∧
      ((∀ p, u.2.2.mem.prot p = Prot.none ∨ u.2.2.mem.prot p = s.host.mem.prot p) ↔
        StackReleases e stacksize s) := by
  have hb := hw.region
  have hacc : ∀ {addr}, r.Accepts addr stacksize → addr % e.opts.pagesize = 0 ∧ 0 < stacksize ∧
      stacksize ≤ r.pages stacksize * r.pagesize ∧
      addr + r.pages stacksize * r.pagesize < 2 ^ 64 := by
    intro addr hacc
    obtain ⟨hend, hle⟩ := hb.end_le hacc
    exact ⟨Nat.mod_eq_zero_of_dvd (hb.pagesize ▸ hacc.1), hacc.2.1, hle, hend⟩
  unfold ProcState.mapStack at hnone ⊢
  unfold StackReleases stackPlace
  simp only at hnone ⊢
  cases haslr : e.opts.noAslr with
  | true =>
      simp only [haslr, if_true] at hnone ⊢
      generalize sub64 s.box.max stacksize = addr at hnone ⊢
      rw [lfiBoxMapat] at hnone ⊢
      rcases mapat_cases hw s.host addr stacksize ProcState.STACK_PROT MAP_FLAGS (-1) 0 with
        ⟨heq, href⟩ | ⟨hbuf, hok, ⟨-, haddr, -, -⟩ | ⟨hfail, -, hset, hhost⟩⟩
      · rw [heq]
        refine ⟨fun p info hp => hp, iff_of_true (fun p => .inr rfl) fun addr' h' hplace => ?_⟩
        split at hplace
        · rename_i hbuf
          rcases hw.mapper.mapAt_cases hb.fits addr stacksize
              ⟨ProcState.STACK_PROT, MAP_FLAGS, -1, 0⟩ with ⟨mm, -, hok, -⟩ | ⟨hmap, -⟩
          · exact absurd ⟨hbuf, hok⟩ href
          · rw [hmap] at hplace
            cases hplace
        · cases hplace
      · rw [haddr] at hnone
        cases hnone
      · refine ⟨fun p info hp => ?_, ?_⟩
        · rw [hset.table, Table.set] at hp
          split at hp
          · cases hp
          · exact hp
        · rw [hhost, if_pos hbuf]
          refine (pages_iff_of_undone (hacc hok) (fun p => (hb.inSpan_pages hok).mp)
            (prot_unmapped_or s.box s.host addr stacksize) hfail).trans ?_
          rcases hw.mapper.mapAt_cases hb.fits addr stacksize
              ⟨ProcState.STACK_PROT, MAP_FLAGS, -1, 0⟩ with ⟨mm, hmap, -⟩ | ⟨-, hno⟩
          swap
          · exact absurd hok hno
          rw [hmap, Option.map_some]
          constructor
          · intro hstands addr' h' hplace
            obtain ⟨rfl, rfl⟩ := Prod.mk.inj (Option.some.inj hplace)
            exact hstands
          · intro hall
            exact hall addr _ rfl
  | false =>
      simp only [haslr, Bool.false_eq_true, if_false] at hnone ⊢
      rw [lfiBoxMapany] at hnone ⊢
      rcases mapany_cases hw s.host stacksize ProcState.STACK_PROT MAP_FLAGS (-1) 0 false with
        ⟨addr, haddr, -⟩ | ⟨-, -, -, htable, hplace⟩
      · rw [haddr] at hnone
        cases hnone
      rcases hplace with ⟨hmap, hhost⟩ | ⟨addr, hmap, hok, hfail, hhost⟩
      · refine ⟨fun p info hp => htable ▸ hp, iff_of_true (fun p => ?_) fun addr' h' hplace => ?_⟩
        · rw [hhost]
          exact .inr rfl
        · rw [hmap] at hplace
          cases hplace
      · refine ⟨fun p info hp => htable ▸ hp, ?_⟩
        rw [hhost, hmap, Option.map_some]
        refine (pages_iff_of_undone (hacc hok) (fun p => (hb.inSpan_pages hok).mp)
          (fun p => .inr rfl) hfail).trans ?_
        constructor
        · intro hstands addr' h' hplace
          obtain ⟨rfl, rfl⟩ := Prod.mk.inj (Option.some.inj hplace)
          exact hstands
        · intro hall
          exact hall addr _ rfl

/-- A context that cannot be made keeps no block, unless its pages cannot be unmapped. -/
theorem lfiCtxNew_cases (l : Heap) (a : ThreadAnswers) :
    (∃ l', ProcState.lfiCtxNew l a = (none, l') ∧ ¬(a.sysPage = true ∧ a.ctxreg = true ∧
        a.malloc = true ∧ a.mmap = true) ∧
        ((a.malloc = false ∨ a.mmap = false ∨ a.munmap = true) ∧ Balanced l l' ∨
          ¬(a.malloc = false ∨ a.mmap = false ∨ a.munmap = true) ∧
            l' = l.alloc.alloc.free l.issued)) ∨
      (a.sysPage = true ∧ a.ctxreg = true ∧ a.malloc = true ∧ a.mmap = true) ∧
        ProcState.lfiCtxNew l a = (some ⟨l.issued, l.issued + 1⟩, l.alloc.alloc) := by
  have hone : Balanced l (l.alloc.free l.issued) := (Balanced.refl _).bracket
  have htwo : Balanced l ((l.alloc.alloc.free (l.issued + 1)).free l.issued) :=
    Balanced.bracket (Balanced.refl _).bracket
  unfold ProcState.lfiCtxNew ProcState.munmapBlock
  cases a.malloc with
  | false => exact .inl ⟨_, rfl, by simp, .inl ⟨.inl rfl, .refl _⟩⟩
  | true =>
      cases a.mmap with
      | false => exact .inl ⟨_, rfl, by simp, .inl ⟨.inr (.inl rfl), hone⟩⟩
      | true =>
          cases hboth : a.sysPage && a.ctxreg with
          | true =>
              obtain ⟨hsys, hctx⟩ := Bool.and_eq_true_iff.mp hboth
              exact .inr ⟨⟨hsys, hctx, rfl, rfl⟩, rfl⟩
          | false =>
              have hno : ¬(a.sysPage = true ∧ a.ctxreg = true ∧ true = true ∧ true = true) := by
                rintro ⟨hsys, hctx, -⟩
                rw [hsys, hctx] at hboth
                cases hboth
              cases a.munmap with
              | true => exact .inl ⟨_, rfl, hno, .inl ⟨.inr (.inr rfl), htwo⟩⟩
              | false => exact .inl ⟨_, rfl, hno, .inr ⟨by simp, rfl⟩⟩

/-- All that the two constructors of a thread allocate is there. -/
def HasContext (a : ThreadAnswers) : Prop :=
  a.calloc = true ∧ a.sysPage = true ∧ a.ctxreg = true ∧ a.malloc = true ∧ a.mmap = true

/-- Up to the context the two constructors are alike. -/
theorem context_cases (s : ProcState) (a : ThreadAnswers) :
    (∃ t, (∀ e stacksize, s.lfiThreadNew e stacksize a = (none, t)) ∧ s.threadClone a = (none, t) ∧
        ¬HasContext a ∧ (ProcReleased s t ↔ CloneReleases a)) ∨
      HasContext a ∧ s.threadAlloc a = (some (s.heap.issued, BASE_TID + s.totalThreadCount),
          { s with heap := s.heap.alloc, totalThreadCount := s.totalThreadCount + 1 }) ∧
        ProcState.lfiCtxNew s.heap.alloc a =
          (some ⟨s.heap.issued + 1, s.heap.issued + 2⟩, s.heap.alloc.alloc.alloc) := by
  have hkept : ∀ {l n}, Balanced s.heap l → ProcReleased s ⟨s.box, s.host, l, n⟩ :=
    fun hbal => ⟨fun _ _ hp => hp, fun _ => .inr rfl, hbal⟩
  cases hcalloc : a.calloc with
  | false =>
      have halloc : s.threadAlloc a = (none, s) := by
        unfold ProcState.threadAlloc
        rw [hcalloc]
        rfl
      refine .inl ⟨s, fun e stacksize => ?_, ?_, fun hhas => ?_, ?_⟩
      · unfold ProcState.lfiThreadNew
        rw [halloc]
      · unfold ProcState.threadClone
        rw [halloc]
      · rw [hhas.1] at hcalloc
        cases hcalloc
      · exact iff_of_true (hkept (.refl _)) (.inl hcalloc)
  | true =>
      have halloc : s.threadAlloc a = (some (s.heap.issued, BASE_TID + s.totalThreadCount),
          { s with heap := s.heap.alloc, totalThreadCount := s.totalThreadCount + 1 }) := by
        unfold ProcState.threadAlloc
        rw [hcalloc]
        rfl
      rcases lfiCtxNew_cases s.heap.alloc a with ⟨l', hctx, hno, hheap⟩ | ⟨hall, hctx⟩
      swap
      · exact .inr ⟨⟨hcalloc, hall⟩, halloc, hctx⟩
      refine .inl ⟨⟨s.box, s.host, l'.free s.heap.issued, s.totalThreadCount + 1⟩,
        fun e stacksize => ?_, ?_, fun hhas => hno hhas.2, ?_⟩
      · unfold ProcState.lfiThreadNew
        simp only [halloc, hctx]
      · unfold ProcState.threadClone
        simp only [halloc, hctx]
      · rw [CloneReleases, or_iff_right (by simp [hcalloc])]
        rcases hheap with ⟨hok, hbal⟩ | ⟨hno, rfl⟩
        · exact iff_of_true (hkept hbal.bracket) hok
        · -- the block of the context is left
          refine iff_of_false (fun hrel => ?_) hno
          refine Balanced.not_of_live (b := s.heap.issued + 2) (Nat.le_add_right _ _) ?_ hrel.heap
          simp

theorem threadClone_released_iff (hfail : s.threadClone a = (none, t)) :
    ProcReleased s t ↔ CloneReleases a := by
  rcases context_cases s a with ⟨t', -, heq, -, hiff⟩ | ⟨-, halloc, hctx⟩
  · obtain rfl := (Prod.mk.inj (heq.symm.trans hfail)).2
    exact hiff
  · unfold ProcState.threadClone at hfail
    simp only [halloc, hctx] at hfail
    cases hfail

theorem threadNew_released_iff {stacksize : Nat} (hw : Works e r s.box)
    (hfail : s.lfiThreadNew e stacksize a = (none, t)) :
    ProcReleased s t ↔ ThreadReleases e stacksize s a := by
  rcases context_cases s a with ⟨t', heq, -, hno, hiff⟩ | ⟨hhas, halloc, hctx⟩
  · obtain rfl := (Prod.mk.inj ((heq e stacksize).symm.trans hfail)).2
    refine hiff.trans ⟨fun hok => ⟨hok, ?_⟩, fun hok => hok.1⟩
    intro h₁ h₂ h₃ h₄ h₅
    exact absurd ⟨h₁, h₄, h₅, h₂, h₃⟩ hno
  obtain ⟨hcalloc, hsys, hctxreg, hmalloc, hmmap⟩ := hhas
  unfold ProcState.lfiThreadNew at hfail
  simp only [halloc, hctx] at hfail
  have hstack := @mapStack_none e r s hw stacksize
  have hsame : ProcState.mapStack e stacksize { s with
      heap := s.heap.alloc.alloc.alloc, totalThreadCount := s.totalThreadCount + 1 } =
      ProcState.mapStack e stacksize s := rfl
  rw [hsame] at hfail
  rcases hmap : ProcState.mapStack e stacksize s with ⟨_ | stack, box, host⟩
  swap
  · rw [hmap] at hfail
    cases hfail
  rw [hmap] at hfail hstack
  obtain ⟨htable, hpages⟩ := hstack rfl
  obtain rfl := (Prod.mk.inj hfail).2
  have hclone : CloneReleases a ↔ a.munmap = true := by
    rw [CloneReleases, hcalloc, hmalloc, hmmap]
    simp
  rw [ThreadReleases, hclone]
  unfold ProcState.lfiCtxFree ProcState.munmapBlock
  cases a.munmap with
  | true =>
      have hbal : Balanced s.heap (((s.heap.alloc.alloc.alloc.free (s.heap.issued + 2)).free
          (s.heap.issued + 1)).free s.heap.issued) :=
        Balanced.bracket (Balanced.bracket (Balanced.refl _).bracket)
      constructor
      · intro hrel
        exact ⟨rfl, fun _ _ _ _ _ => hpages.mp hrel.pages⟩
      · intro hok
        exact ⟨htable, hpages.mpr (hok.2 hcalloc hmalloc hmmap hsys hctxreg), hbal⟩
  | false =>
      refine iff_of_false (fun hrel => ?_) fun hok => by cases hok.1
      refine Balanced.not_of_live (b := s.heap.issued + 2) (Nat.le_add_right _ _) ?_ hrel.heap
      simp

end Thread

/-- In every state of an engine, a failed `lfi_proc_new` gives back what it has taken if and
only if it is the process that cannot be allocated, or no box is had and no page is left of
it; any number of such failures does. A failed `lfi_thread_new` or `thread_clone` does if and
only if what it has mapped can be unmapped. -/
theorem failed_creation_released_iff {le : LFILinuxEngine} {n : Nat} {w₀ : World}
    (hstart : Start le.engine n w₀) :
    (∀ s a t, Reaches (Step le.engine le.rt) anyStep w₀ s.world → s.lfiProcNew le a = (none, t) →
        (EngineReleased le.engine s t ↔ ProcReleases le s a)) ∧
      (∀ s t, Reaches (Step le.engine le.rt) anyStep w₀ s.world →
        Reaches (FailedProcNew le) (ProcReleases le) s t → EngineReleased le.engine s t) ∧
      (∀ r stacksize s a t, Works le.engine r s.box →
        s.lfiThreadNew le.engine stacksize a = (none, t) →
        (ProcReleased s t ↔ ThreadReleases le.engine stacksize s a)) ∧
      ∀ s a t, s.threadClone a = (none, t) → (ProcReleased s t ↔ CloneReleases a) := by
  have hsane : ∀ w, Reaches (Step le.engine le.rt) anyStep w₀ w → EngineSane le.engine w :=
    fun w hrun => hrun.invariant hstart.sane fun _ _ _ h _ hstep => step_sane h hstep
  refine ⟨fun s a t hrun hfail => ?_, fun s t hrun hruns => ?_, fun r stacksize s a t hw hfail => ?_,
    fun s a t hfail => ?_⟩
  · exact procNew_released_iff (hsane _ hrun) hfail
  · exact run_released (hsane _ hrun) hruns
  · exact threadNew_released_iff hw hfail
  · exact threadClone_released_iff hfail

/-- An engine for one box, with a working directory but no directory mappings. -/
def unmappedEngine : LFILinuxEngine where
  engine := nopEngine
  rt := entries
  wd := some "/nope".toList
  dirMaps := none
  hostCheckdir _ := 0

def newEngine : EngineState := ⟨smallWorld, .empty⟩

/-- The host does what it is asked to, but for `calloc`. -/
def procAnswers (calloc : Bool) : ProcAnswers := ⟨hostAnswers .ok true, calloc, false⟩

def newProc : ProcState := ⟨emptyBox, reservedHost, .empty, 0⟩

def noBlock : ThreadAnswers := ⟨true, true, false, true, true, true⟩

theorem unmappedEngine_start : Start unmappedEngine.engine 1 smallWorld where
  target := by decide
  boxsize := by decide
  page := by decide
  wrap := by decide
  fits := by decide
  reserved := ⟨smallHost, by decide⟩
  boxes := rfl

theorem failed_allocations_released :
    EngineReleased nopEngine newEngine (newEngine.lfiProcNew unmappedEngine (procAnswers false)).2 ∧
      ProcReleased newProc (newProc.lfiThreadNew nopEngine 4096 noBlock).2 ∧
      ProcReleased newProc (newProc.threadClone noBlock).2 := by
  obtain ⟨hproc, -, hthread, hclone⟩ := failed_creation_released_iff unmappedEngine_start
  obtain ⟨r, hinv⟩ := inv_new placed_nopEngine lfiBoxNew_nopEngine reserved_reservedHost
  have hnone : (newEngine.lfiProcNew unmappedEngine (procAnswers false)).1 = none := by decide
  have hstops : CloneReleases noBlock := .inr (.inr (.inl rfl))
  refine ⟨?_, ?_, ?_⟩
  · refine (hproc newEngine (procAnswers false) _ (.refl _) (Prod.ext hnone rfl)).mpr
      ⟨fun _ => rfl, ?_⟩
    intro hno
    refine absurd ⟨?_, rfl, rfl, rfl, by decide⟩ hno
    rintro (hmalloc | hzero | ⟨hpku, -⟩)
    · cases hmalloc
    · exact absurd hzero (by decide)
    · cases hpku
  · refine (hthread r 4096 newProc noBlock _ ⟨hinv.agree.region, hinv.agree.mapper⟩ rfl).mpr
      ⟨hstops, fun _ _ hmmap => by cases hmmap⟩
  · exact (hclone newProc noBlock _ rfl).mpr hstops

/-- The only box of the engine is gone for good after its first failure. -/
theorem rejected_wd_keeps_box :
    let t := (newEngine.lfiProcNew unmappedEngine (procAnswers true)).2
    newEngine.lfiProcNew unmappedEngine (procAnswers true) = (none, t) ∧
      newEngine.world.nextBase nopEngine ≠ 0 ∧ t.world.nextBase nopEngine = 0 ∧
      ¬EngineReleased nopEngine newEngine t := by
  intro t
  have hnone : (newEngine.lfiProcNew unmappedEngine (procAnswers true)).1 = none := by decide
  have hbefore : newEngine.world.nextBase nopEngine ≠ 0 := by decide
  have hafter : t.world.nextBase nopEngine = 0 := by decide
  refine ⟨Prod.ext hnone rfl, hbefore, hafter, fun hrel => hbefore ?_⟩
  rw [← hafter, World.nextBase, World.nextBase, hrel.map]

end LfiRuntime.ProcNew
