import LfiRuntime.Linux.FdCalls

/-!
A descriptor table over every run of its calls: it refines a table of POSIX, and
closes what it has been given exactly once.
-/

namespace LfiRuntime.Fd

open LfiRuntime.Cwalk
open LfiRuntime.Descriptors
open LfiRuntime.Handles
open LfiRuntime.Path
open LfiRuntime.Runs

variable {φ : Type*} {s s' : Sys φ} {dir : Option Ptr} {a : Answers}

/-- What `fdalloc` puts into a slot. -/
def Sys.given (s : Sys φ) (file : φ) (dir : Option Ptr) (flags : Int) : Entry φ :=
  ⟨file, flags, dir.bind s.heap.content⟩

/-- What a call is to POSIX. -/
def Call.op (s : Sys φ) : Call φ → Op (Entry φ)
  | .fdalloc hostFd dir flags =>
    match s.host.content hostFd with
    | some file => .alloc (s.given file dir flags)
    | none => .other
  | .fddup2 oldfd newfd => if newfd = -1 then .dup oldfd else .dup2 oldfd newfd
  | .fdclose fd => .close fd
  | .fdfree => .closeAll
  | _ => .other

theorem fdalloc_cases {hostFd flags : Int} {file : φ} (h : Inv s)
    (hadm : Admits s (.fdalloc hostFd dir flags)) (hfile : s.host.content hostFd = some file) :
    (Failed s (s.fdalloc hostFd dir flags).1 (s.fdalloc hostFd dir flags).2 ∧
        ∀ fd, s.view fd ≠ none) ∨
      ∃ new : Slot, (s.fdalloc hostFd dir flags).1 = (new : Nat) ∧ IsLowestFree s.view new ∧
        Inv (s.fdalloc hostFd dir flags).2 ∧
        (s.fdalloc hostFd dir flags).2.view =
          Function.update s.view new (some (s.given file dir flags)) := by
  obtain ⟨⟨h0, -, howner⟩, hdir⟩ := hadm
  obtain ⟨hinv, ht, hhost, hrefs, hheap, hview⟩ := @InvWith.takeDir _ _ dir h
    (fun p hp => by
      obtain ⟨⟨str, hstr, -⟩, -⟩ := hdir p hp
      simp [hstr])
    (fun p hp => (hdir p hp).2)
  have hx : (s.takeDir dir).hostOwner = s.hostOwner := by
    funext x
    rcases x with fd | r
    · simp [Sys.hostOwner, ht]
    · simp [Sys.hostOwner, hrefs]
  unfold Sys.fdalloc
  simp only [hinv.active, Bool.false_eq_true, if_false]
  split
  · rename_i new hlow
    obtain ⟨hfree, hlowest⟩ := lowestFree_some hinv hlow
    have hempty := dirs_free hinv hfree
    have hne : hostFd ≠ -1 := by omega
    -- the descriptor, then the directory, then the flags
    have hset := hinv.setSlot h0 <| show Keeps ((s.takeDir dir).host.adopt hostFd)
        (Function.update (s.takeDir dir).hostOwner (.slot new) (some hostFd)) by
      rw [hx, hhost]
      refine h.host.adopt (by simp [hfile]) howner ?_
      rw [← hx]
      exact owner_free hfree
    obtain ⟨hstore, hothers⟩ := @InvWith.store _ _ new _ hset (by simpa [FDTable.setFd] using hne)
      hempty <| by
        intro p str hp hstr
        obtain ⟨⟨str', hstr', hshort⟩, -⟩ := hdir p hp
        rw [← hheap] at hstr'
        rwa [Option.some.inj (hstr.symm.trans hstr')]
    rw [← hview]
    refine .inr ⟨new, rfl, hlowest, hstore.setFlags new flags, eq_update ?_ ?_⟩
    · refine view_of ?_ (Function.update_self ..) ?_
      · refine (file_setSlot (s := s.takeDir dir) h0).trans ?_
        rw [Ledger.content_adopt, hhost, hfile]
        rfl
      · simp [Sys.dirString, FDTable.setFlags, FDTable.setDir, Sys.given, hheap]
    · intro fd hfd
      refine (view_setFlags _ new _ hfd).trans ((hothers fd hfd).trans ?_)
      refine view_congr (file_congr (Function.update_of_ne hfd ..) fun _ _ => ?_) rfl rfl
      rw [Ledger.content_adopt]
  · rename_i hfull
    refine .inl ⟨.free hinv ht hview emfile_neg, fun fd => ?_⟩
    rw [← hview]
    exact lowestFree_none hinv hfull fd

/-- The reference gets a duplicate of its own, or -1. -/
theorem fdacquire_cases (hactive : s.t.passthrough = false) (fd : Int) :
    (∃ out, s.fdacquire a fd = ((-1, out), s)) ∨
      ∃ hostFd file out,
        s.fdacquire a fd = ((hostFd, out), { s with host := s.host.create hostFd file }) ∧
          0 ≤ hostFd ∧ s.host.content hostFd = none := by
  unfold Sys.fdacquire
  rw [hactive, if_neg Bool.false_ne_true]
  split
  · exact .inl ⟨_, rfl⟩
  split
  · exact .inl ⟨_, rfl⟩
  split
  · exact .inl ⟨_, rfl⟩
  · rename_i hostFd s₁ hdup
    obtain ⟨file, -, h0, hclosed, rfl⟩ := dup_some hdup
    exact .inr ⟨hostFd, file, _, rfl, h0, hclosed⟩

/-- The slots are as they were. -/
structure SlotsKept (s s' : Sys φ) : Prop where
  inv : Inv s'
  t : s'.t = s.t
  view : s'.view = s.view

theorem Inv.setRef {ref : Nat} {v : Int} {host : Ledger Int φ} (h : Inv s)
    (hkeeps : Keeps host (Function.update s.hostOwner (.ref ref) (handle v)))
    (hv : v = -1 ∨ 0 ≤ v)
    (hcontent : ∀ fd k, handle (s.t.fds fd) = some k → host.content k = s.host.content k) :
    SlotsKept s { s with host := host, refs := Function.update s.refs ref v } := by
  have howner : Sys.hostOwner { s with host := host, refs := Function.update s.refs ref v } =
      Function.update s.hostOwner (.ref ref) (handle v) := hostOwner_setRef rfl rfl
  refine ⟨⟨h.active, ?_, h.heap, h.dirs, h.short, ?_⟩, rfl, view_host hcontent⟩
  · rw [howner]
    exact hkeeps
  · intro x k hk
    rw [howner] at hk
    by_cases hx : x = .ref ref
    · rw [hx, Function.update_self] at hk
      obtain ⟨hne, rfl⟩ := handle_some hk
      exact hv.resolve_left hne
    · rw [Function.update_of_ne hx] at hk
      exact h.nonneg x k hk

theorem Inv.fdacquire {ref : Nat} (h : Inv s) (href : s.refs ref = -1) (fd : Int) :
    SlotsKept s (s.exec a (.fdacquire ref fd)).2 := by
  have hnone : s.hostOwner (.ref ref) = none := by
    show handle (s.refs ref) = none
    rw [href, handle_free]
  rcases fdacquire_cases (a := a) h.active fd with
    ⟨out, heq⟩ | ⟨hostFd, file, out, heq, h0, hclosed⟩
  · simp only [Sys.exec, heq]
    refine h.setRef ?_ (.inl rfl) fun _ _ _ => rfl
    rw [handle_free, Function.update_eq_self_iff.mpr hnone.symm]
    exact h.host
  · have hne : hostFd ≠ -1 := by omega
    simp only [Sys.exec, heq]
    refine h.setRef ?_ (.inr h0) fun fd k hk => ?_
    · rw [handle_of_ne hne]
      exact h.host.create hclosed hnone
    · exact content_create_held (x := .slot fd) h hclosed hk

theorem Inv.fdrelease (h : Inv s) (ref : Nat) :
    SlotsKept s (s.exec a (.fdrelease ref)).2 := by
  by_cases href : s.refs ref = -1
  · have hnone : s.hostOwner (.ref ref) = none := by
      show handle (s.refs ref) = none
      rw [href, handle_free]
    have heq : s.fdrelease (s.refs ref) = s := by simp [Sys.fdrelease, h.active, href]
    simp only [Sys.exec, heq]
    refine @Inv.setRef _ _ ref (-1) s.host h ?_ (.inl rfl) fun _ _ _ => rfl
    rw [handle_free, Function.update_eq_self_iff.mpr hnone.symm]
    exact h.host
  · have hx : s.hostOwner (.ref ref) = some (s.refs ref) := handle_of_ne href
    have h0 := h.nonneg _ _ hx
    have heq : s.fdrelease (s.refs ref) = { s with host := s.host.close (s.refs ref) } := by
      simp [Sys.fdrelease, h.active, h0]
    simp only [Sys.exec, heq]
    refine h.setRef ?_ (.inl rfl) fun fd k hk => ?_
    · exact h.host.close hx
    · have hkne : k ≠ s.refs ref := by
        rintro rfl
        exact absurd (h.host.alone (.slot fd) (.ref ref) _ hk hx) (by simp)
      rw [Ledger.content_close, Function.update_of_ne hkne]

/-! What the rest of the program does. -/

theorem Inv.setHost {host : Ledger Int φ} (h : Inv s) (hkeeps : Keeps host s.hostOwner)
    (hcontent : ∀ fd k, handle (s.t.fds fd) = some k → host.content k = s.host.content k) :
    SlotsKept s { s with host := host } :=
  ⟨⟨h.active, hkeeps, h.heap, h.dirs, h.short, h.nonneg⟩, rfl, view_host hcontent⟩

theorem Inv.setHeap {heap : Ledger Ptr Str} (h : Inv s) (hkeeps : Keeps heap (s.dirOwner none))
    (hcontent : ∀ fd p, s.t.dirs fd = some p → heap.content p = s.heap.content p) :
    SlotsKept s { s with heap := heap } := by
  refine ⟨⟨h.active, h.host, hkeeps, h.dirs, ?_, h.nonneg⟩, rfl, view_heap hcontent⟩
  intro fd p str hp hstr
  exact h.short fd p str hp ((hcontent fd p hp).symm.trans hstr)

theorem Inv.outside (h : Inv s) {c : Call φ} (hadm : Admits s c)
    (hc : (∃ k file, c = .openFile k file) ∨ (∃ k, c = .closeFile k) ∨
      (∃ p str, c = .mallocDir p str) ∨ ∃ p, c = .freeDir p) :
    SlotsKept s (s.exec a c).2 := by
  rcases hc with ⟨k, file, rfl⟩ | ⟨k, rfl⟩ | ⟨p, str, rfl⟩ | ⟨p, rfl⟩
  · refine h.setHost (h.host.issue hadm) fun fd k' hk' => ?_
    have hne : k' ≠ k := by
      rintro rfl
      exact h.host.not_held hadm (.slot fd) hk'
    rw [Ledger.content_issue, Function.update_of_ne hne]
  · refine h.setHost (h.host.drop hadm) fun fd k' hk' => ?_
    have hne : k' ≠ k := by
      rintro rfl
      exact hadm (.slot fd) hk'
    rw [Ledger.content_drop, Function.update_of_ne hne]
  · refine h.setHeap (h.heap.issue hadm) fun fd q hq => ?_
    have hne : q ≠ p := by
      rintro rfl
      exact h.heap.not_held hadm (some fd) hq
    rw [Ledger.content_issue, Function.update_of_ne hne]
  · refine h.setHeap (h.heap.drop ?_) fun fd q hq => ?_
    · intro x hx
      rcases x with _ | fd
      · cases hx
      · exact hadm fd hx
    · have hne : q ≠ p := by
        rintro rfl
        exact hadm fd hq
      rw [Ledger.content_drop, Function.update_of_ne hne]

/-! Runs. -/

/-- A step of the table is a step of a table of POSIX, and a call that fails leaves
the slots alone. -/
structure Refines (s : Sys φ) (e : Event φ) (s' : Sys φ) : Prop where
  posix : Posix s.view (e.call.op s) e.result s'.view
  failed : e.result < 0 → s'.t = s.t

theorem Failed.refines {e : Event φ} (h : Failed s e.result s')
    (hposix : Posix s.view (e.call.op s) e.result s.view) : Refines s e s' :=
  ⟨h.view.symm ▸ hposix, fun _ => h.t⟩

theorem SlotsKept.refines {e : Event φ} (h : SlotsKept s s') (hop : e.call.op s = .other) :
    Refines s e s' :=
  ⟨by rw [h.view, hop]; exact .other, fun _ => h.t⟩

theorem exec_refines {c : Call φ} (h : Inv s) (hadm : Admits s c) :
    Inv (s.exec a c).2 ∧ Refines s ⟨c, a, (s.exec a c).1⟩ (s.exec a c).2 := by
  cases c with
  | fdalloc hostFd dir flags =>
      obtain ⟨file, hfile⟩ := Option.isSome_iff_exists.mp hadm.1.2.1
      have hop : (Call.fdalloc hostFd dir flags).op s = .alloc (s.given file dir flags) := by
        simp [Call.op, hfile]
      rcases fdalloc_cases h hadm hfile with ⟨hfailed, hfull⟩ | ⟨new, hr, hlow, hinv, hview⟩
      · exact ⟨hfailed.inv, hfailed.refines (hop ▸ .full hfull hfailed.result)⟩
      · refine ⟨hinv, ?_, fun hneg => ?_⟩
        · simp only [Sys.exec, hr, hview, hop]
          exact .alloc hlow
        · simp only [Sys.exec, hr] at hneg
          omega
  | fdacquire ref fd =>
      have hkept := h.fdacquire (a := a) hadm fd
      exact ⟨hkept.inv, hkept.refines rfl⟩
  | fdrelease ref =>
      have hkept := h.fdrelease (a := a) ref
      exact ⟨hkept.inv, hkept.refines rfl⟩
  | fddup2 oldfd newfd =>
      rcases fddup2_cases (a := a) h oldfd newfd with hfailed | hdup
      · refine ⟨hfailed.inv, hfailed.refines ?_⟩
        simp only [Call.op]
        split
        · exact .dupFailed hfailed.result
        · exact .dup2Failed hfailed.result
      · obtain ⟨old, new, e, hold, hr, he, hview, hlow, hgiven⟩ := hdup.entry
        refine ⟨hdup.inv, ?_, fun hneg => ?_⟩
        · simp only [Sys.exec, Call.op, hview]
          split
          · rename_i hminus
            rw [hr, hold]
            exact .dup he (hlow hminus)
          · rename_i hminus
            rw [← hgiven hminus, hgiven hminus, hr, hold]
            exact .dup2 he
        · simp only [Sys.exec, hr] at hneg
          omega
  | fdclose fd =>
      rcases fdclose_cases h fd with ⟨heq, hnone⟩ | ⟨slot, e, s₁, heq, rfl, he, hinv, hview⟩
      · simp only [Sys.exec, heq]
        exact ⟨h, .notOpen hnone ebadf_neg, fun _ => rfl⟩
      · simp only [Sys.exec, heq]
        refine ⟨hinv, ?_, fun hneg => absurd hneg (by simp)⟩
        simp only [Call.op, hview]
        exact .close he
  | fdfree =>
      obtain ⟨hinv, hview⟩ := h.fdfree
      simp only [Sys.exec]
      constructor
      · exact hinv
      · refine ⟨?_, fun hneg => absurd hneg (by simp)⟩
        simp only [Call.op, hview]
        exact .closeAll
  | openFile hostFd file =>
      have hkept := h.outside (a := a) hadm (.inl ⟨_, _, rfl⟩)
      exact ⟨hkept.inv, hkept.refines rfl⟩
  | closeFile hostFd =>
      have hkept := h.outside (a := a) hadm (.inr (.inl ⟨_, rfl⟩))
      exact ⟨hkept.inv, hkept.refines rfl⟩
  | mallocDir p dir =>
      have hkept := h.outside (a := a) hadm (.inr (.inr (.inl ⟨_, _, rfl⟩)))
      exact ⟨hkept.inv, hkept.refines rfl⟩
  | freeDir p =>
      have hkept := h.outside (a := a) hadm (.inr (.inr (.inr ⟨_, rfl⟩)))
      exact ⟨hkept.inv, hkept.refines rfl⟩

theorem step_refines {e : Event φ} (h : Inv s) (hstep : Step s e s') : Inv s' ∧ Refines s e s' := by
  obtain ⟨c, a, r⟩ := e
  obtain ⟨hadm, hexec⟩ := hstep
  have hrefines := exec_refines (a := a) h hadm
  rwa [hexec] at hrefines

/-! The table after `fdinit`. -/

theorem Inv.initStd {answer : Option Int} (h : Inv s) {fd : Slot} (hfree : s.t.fds fd = -1) :
    Inv (s.initStd fd answer) ∧ ∀ fd', fd' ≠ fd → (s.initStd fd answer).t.fds fd' = s.t.fds fd' := by
  unfold Sys.initStd
  split
  · exact ⟨h, fun _ _ => rfl⟩
  · rename_i hostFd s₁ hdup
    obtain ⟨file, -, h0, hclosed, rfl⟩ := dup_some hdup
    exact ⟨InvWith.setSlot (s := s) h h0 (h.host.create hclosed (owner_free hfree)),
      fun fd' hne => Function.update_of_ne hne ..⟩

theorem Blank.inv (h : Blank s) : Inv { s with t := { s.t with fds := fun _ => -1 } } := by
  have hhost : Sys.hostOwner { s with t := { s.t with fds := fun _ => -1 } } = fun _ => none := by
    funext x
    rcases x with fd | r
    · rfl
    · show handle (s.refs r) = none
      rw [h.refs, handle_free]
  have hdir : s.dirOwner none = fun _ => none := by
    funext x
    rcases x with _ | fd
    · rfl
    · exact h.dirs fd
  refine ⟨h.passthrough, ?_, ?_, ?_, ?_, ?_⟩
  · rw [hhost]
    exact h.host
  · show Keeps s.heap (s.dirOwner none)
    rw [hdir]
    exact h.heap
  · intro fd p hp
    cases (h.dirs fd).symm.trans hp
  · intro fd p str hp
    cases (h.dirs fd).symm.trans hp
  · intro x k hk
    rw [hhost] at hk
    cases hk

theorem start_inv (h : Start s) : Inv s := by
  obtain ⟨s₀, sysMinimal, d₀, d₁, d₂, hblank, rfl⟩ := h
  have hinv := hblank.inv
  unfold Sys.fdinit
  simp only
  split
  · exact ⟨rfl, hinv.host, hinv.heap, hinv.dirs, hinv.short, hinv.nonneg⟩
  · obtain ⟨hinv₀, hfds₀⟩ := @Inv.initStd _ _ d₀ hinv 0 rfl
    obtain ⟨hinv₁, hfds₁⟩ := @Inv.initStd _ _ d₁ hinv₀ 1 (hfds₀ 1 (by decide))
    obtain ⟨hinv₂, -⟩ := @Inv.initStd _ _ d₂ hinv₁ 2
      ((hfds₁ 2 (by decide)).trans (hfds₀ 2 (by decide)))
    exact ⟨rfl, hinv₂.host, hinv₂.heap, hinv₂.dirs, hinv₂.short, hinv₂.nonneg⟩

/-- The slots that are occupied have open host descriptors, each its own, and only
they have directories. -/
structure WellFormed (s : Sys φ) : Prop where
  isOpen : ∀ fd, s.t.fds fd ≠ -1 → (s.host.content (s.t.fds fd)).isSome
  apart : ∀ fd fd', s.t.fds fd ≠ -1 → s.t.fds fd = s.t.fds fd' → fd = fd'
  dirs : ∀ fd, s.t.dirs fd ≠ none → s.t.fds fd ≠ -1
  view : ∀ fd, s.view fd = none ↔ s.t.fds fd = -1

theorem Inv.wellFormed (h : Inv s) : WellFormed s := by
  refine ⟨?_, ?_, ?_, fun fd => view_eq_none_iff h⟩
  · intro fd hocc
    exact h.host.isOpen (show s.hostOwner (.slot fd) = some _ from handle_of_ne hocc)
  · intro fd fd' hocc heq
    refine Holder.slot.inj (h.host.alone (.slot fd) (.slot fd') _ (handle_of_ne hocc) ?_)
    rw [heq] at hocc ⊢
    exact handle_of_ne hocc
  · intro fd hdir hfree
    exact hdir (dirs_free h hfree)

/-- Once no slot and no reference holds anything, everything has been closed. -/
theorem Inv.settled (h : Inv s) (hslots : ∀ fd, s.t.fds fd = -1) (hrefs : ∀ r, s.refs r = -1) :
    Settled s.host ∧ Settled s.heap := by
  constructor
  · refine h.host.settled fun x => ?_
    rcases x with fd | r
    · exact owner_free (hslots fd)
    · show handle (s.refs r) = none
      rw [hrefs, handle_free]
  · refine h.heap.settled fun x => ?_
    rcases x with _ | fd
    · rfl
    · exact dirs_free h (hslots fd)

/-- In every run the table is well formed, each call does what it does to a table of
POSIX, and when all is freed and released each host descriptor and each string that
the table has had is closed exactly once. -/
theorem fdtable_posix {s₀ s : Sys φ} (hstart : Start s₀) (hrun : Reaches Step anyStep s₀ s) :
    WellFormed s ∧ (∀ e s', Step s e s' → Refines s e s') ∧
      ((∀ fd, s.t.fds fd = -1) → (∀ r, s.refs r = -1) → Settled s.host ∧ Settled s.heap) := by
  have hinv : Inv s :=
    hrun.invariant (start_inv hstart) fun _ _ _ h _ hstep => (step_refines h hstep).1
  exact ⟨hinv.wellFormed, fun e s' hstep => (step_refines hinv hstep).2, hinv.settled⟩

/-- `fdfree` is no release of references. -/
theorem fdfree_refs (s : Sys φ) : s.fdfree.refs = s.refs := by
  unfold Sys.fdfree
  induction List.finRange LINUX_NOFILE generalizing s with
  | nil => rfl
  | cons fd l ih =>
      rw [List.foldl_cons, ih]
      unfold Sys.freeSlot Sys.closeSlot Sys.freeDirOf
      split
      · rfl
      · exact free_refs _ _

theorem fdalloc_refs (s : Sys φ) (hostFd : Int) (dir : Option Ptr) (flags : Int) :
    (s.fdalloc hostFd dir flags).2.refs = s.refs := by
  have htake : (s.takeDir dir).refs = s.refs := by cases dir <;> rfl
  unfold Sys.fdalloc
  simp only
  split
  · rw [free_refs, htake]
  · split
    · exact htake
    · rw [free_refs, htake]

theorem step_exec {c : Call φ} (hadm : Admits s c) :
    Step s ⟨c, a, (s.exec a c).1⟩ (s.exec a c).2 := ⟨hadm, rfl⟩

def blankSys : Sys String :=
  ⟨⟨fun _ => 0, fun _ => none, fun _ => 0, false⟩,
    ((Ledger.empty.issue 0 "stdin").issue 1 "stdout").issue 2 "stderr", .empty, fun _ => -1⟩

theorem blankSys_blank : Blank blankSys where
  host := ((keeps_empty.issue rfl).issue rfl).issue rfl
  heap := keeps_empty
  dirs _ := rfl
  refs _ := rfl
  passthrough := rfl

/-- Its host gives out 7, and no memory. -/
def answers : Answers := ⟨some 7, true, none⟩

def startedSys : Sys String := blankSys.fdinit false false (some 3) (some 4) (some 5)

def openedSys : Sys String := (startedSys.exec answers (.openFile 6 "data")).2

def allocatedSys : Sys String := (openedSys.exec answers (.fdalloc 6 none 0)).2

def freedSys : Sys String := (allocatedSys.exec answers .fdfree).2

theorem freedSys_settled : WellFormed freedSys ∧ Settled freedSys.host := by
  have hstart : Start startedSys := ⟨_, _, _, _, _, blankSys_blank, rfl⟩
  have hinv := start_inv hstart
  have hopened : Reaches Step anyStep startedSys openedSys :=
    .tail (.refl _) trivial (step_exec (a := answers) rfl)
  have hallocated : Reaches Step anyStep startedSys allocatedSys := by
    refine hopened.tail trivial (step_exec (a := answers) ⟨⟨by decide, by decide, ?_⟩, ?_⟩)
    · exact hinv.host.not_held (h := 6) rfl
    · intro p hp
      cases hp
  have hfree : Step allocatedSys ⟨.fdfree, answers, _⟩ freedSys := step_exec trivial
  have hrefines := (fdtable_posix hstart hallocated).2.1 _ _ hfree
  have hview : freedSys.view = fun _ => none := hrefines.posix.closeAll_eq
  obtain ⟨hwell, -, hsettled⟩ := fdtable_posix hstart (hallocated.tail trivial hfree)
  have hrefs : freedSys.refs = startedSys.refs := by
    simp only [freedSys, allocatedSys, openedSys, Sys.exec, fdfree_refs, fdalloc_refs]
  refine ⟨hwell, (hsettled (fun fd => (hwell.view fd).mp (congrFun hview fd)) fun r => ?_).1⟩
  rw [hrefs]
  rfl

end LfiRuntime.Fd
