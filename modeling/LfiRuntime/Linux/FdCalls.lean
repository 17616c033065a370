import LfiRuntime.Linux.FdSpec

/-!
Each call on the descriptor table keeps the invariant and does what POSIX says, over
every run.
-/

namespace LfiRuntime.Fd

open LfiRuntime.Cwalk
open LfiRuntime.Descriptors
open LfiRuntime.Handles
open LfiRuntime.Path
open LfiRuntime.Runs

variable {φ : Type*} {s s' s₁ : Sys φ} {fd old new : Slot} {dir : Option Ptr} {a : Answers}

/-! Duplicates on the host. -/

theorem dup_some {answer : Option Int} {k h : Int} (hdup : s.dup answer k = some (h, s')) :
    ∃ file, s.host.content k = some file ∧ 0 ≤ h ∧ s.host.content h = none ∧
      s' = { s with host := s.host.create h file } := by
  unfold Sys.dup at hdup
  split at hdup
  · rename_i new file hfile
    split at hdup
    · rename_i hnew
      obtain ⟨rfl, rfl⟩ := Prod.mk.inj (Option.some.inj hdup)
      exact ⟨file, hfile, hnew.1, Option.isNone_iff_eq_none.mp hnew.2, rfl⟩
    · cases hdup
  · cases hdup

theorem dup2_some {answer : Bool} {k h : Int} (hne : k ≠ h) (hdup : s.dup2 answer k h = some s') :
    ∃ file, s.host.content k = some file ∧
      s' = { s with host := (s.host.close h).create h file } := by
  unfold Sys.dup2 at hdup
  split at hdup
  · rename_i file hfile
    rw [if_neg hne] at hdup
    exact ⟨file, hfile, (Option.some.inj hdup).symm⟩
  · cases hdup

/-- A handle that is held stays as it is when another is given out. -/
theorem content_create_held {x : Holder} {h k : Int} {file : φ} (hinv : InvWith dir s)
    (hclosed : s.host.content h = none) (hx : s.hostOwner x = some k) :
    (s.host.create h file).content k = s.host.content k := by
  have hne : k ≠ h := by
    rintro rfl
    exact hinv.host.not_held hclosed x hx
  rw [Ledger.content_create, Function.update_of_ne hne]

/-- `new` refers to the open file of `old`, and the other slots are as they were. -/
structure Redirected (dir : Option Ptr) (s s' : Sys φ) (old new : Slot) : Prop where
  inv : InvWith dir s'
  file : s'.file new = s.file old
  occupied : s'.t.fds new ≠ -1
  others : ∀ fd, fd ≠ new → s'.view fd = s.view fd ∧ s'.file fd = s.file fd
  dirs : ∀ fd, fd ≠ new → s'.t.dirs fd = s.t.dirs fd

/-- A host descriptor gets into a free slot. -/
theorem InvWith.setSlot {h : Int} {host : Ledger Int φ} (hinv : InvWith dir s) (h0 : 0 ≤ h)
    (hkeeps : Keeps host (Function.update s.hostOwner (.slot new) (some h))) :
    InvWith dir { s with host := host, t := s.t.setFd new h } := by
  have hh : h ≠ -1 := by omega
  have howner : Sys.hostOwner { s with host := host, t := s.t.setFd new h } =
      Function.update s.hostOwner (.slot new) (some h) := by
    rw [← handle_of_ne hh]
    exact hostOwner_setFd rfl rfl
  refine ⟨hinv.active, ?_, hinv.heap, ?_, hinv.short, ?_⟩
  · rw [howner]
    exact hkeeps
  · intro fd p hp
    by_cases hfd : fd = new
    · subst hfd
      simpa [FDTable.setFd] using hh
    · simpa [FDTable.setFd, hfd] using hinv.dirs fd p hp
  · intro x k hx
    rw [howner] at hx
    by_cases hxn : x = .slot new
    · subst hxn
      rw [Function.update_self] at hx
      exact Option.some.inj hx ▸ h0
    · rw [Function.update_of_ne hxn] at hx
      exact hinv.nonneg x k hx

theorem owner_free (hfree : s.t.fds fd = -1) : s.hostOwner (.slot fd) = none := by
  show handle (s.t.fds fd) = none
  rw [hfree, handle_free]

theorem file_setSlot {h : Int} {host : Ledger Int φ} (h0 : 0 ≤ h) :
    Sys.file { s with host := host, t := s.t.setFd new h } new = host.content h := by
  have hh : h ≠ -1 := by omega
  simp [Sys.file, FDTable.setFd, handle_of_ne hh]

theorem redirected_free {h : Int} {answer : Option Int} (hinv : InvWith dir s)
    (hold : s.t.fds old ≠ -1) (hfree : s.t.fds new = -1)
    (hdup : s.dup answer (s.t.fds old) = some (h, s')) :
    Redirected dir s { s' with t := s'.t.setFd new h } old new := by
  obtain ⟨file, hfile, h0, hclosed, rfl⟩ := dup_some hdup
  have hothers : ∀ fd, fd ≠ new →
      Sys.file { s with host := s.host.create h file, t := s.t.setFd new h } fd = s.file fd := by
    intro fd hfd
    refine file_congr (Function.update_of_ne hfd ..) fun k hk => ?_
    exact content_create_held (x := .slot fd) hinv hclosed hk
  refine ⟨hinv.setSlot h0 (hinv.host.create hclosed (owner_free hfree)), ?_, ?_, ?_, fun _ _ => rfl⟩
  · refine (file_setSlot (s := s) h0).trans ?_
    rw [Sys.file, handle_of_ne hold, Option.bind_some, hfile]
    simp
  · have hh : h ≠ -1 := by omega
    simpa [FDTable.setFd] using hh
  · intro fd hfd
    exact ⟨view_congr (hothers fd hfd) rfl rfl, hothers fd hfd⟩

theorem redirected_occupied {answer : Bool} (hinv : InvWith dir s) (hold : s.t.fds old ≠ -1)
    (hnew : s.t.fds new ≠ -1) (hne : old ≠ new)
    (hdup : s.dup2 answer (s.t.fds old) (s.t.fds new) = some s') :
    Redirected dir s s' old new := by
  have hx : s.hostOwner (.slot new) = some (s.t.fds new) := handle_of_ne hnew
  have hapart : ∀ fd k, fd ≠ new → handle (s.t.fds fd) = some k → k ≠ s.t.fds new := by
    rintro fd k hfd hk rfl
    have heq := hinv.host.alone (.slot fd) (.slot new) _ hk hx
    exact hfd (Holder.slot.inj heq)
  obtain ⟨file, hfile, rfl⟩ :=
    dup2_some (hapart old _ hne (handle_of_ne hold)) hdup
  have hothers : ∀ fd, fd ≠ new →
      Sys.file { s with host := (s.host.close (s.t.fds new)).create (s.t.fds new) file } fd =
        s.file fd := by
    intro fd hfd
    refine file_congr rfl fun k hk => ?_
    rw [Ledger.content_create, Function.update_of_ne (hapart fd k hfd hk), Ledger.content_close,
      Function.update_of_ne (hapart fd k hfd hk)]
  refine ⟨⟨hinv.active, hinv.host.replace hx, hinv.heap, hinv.dirs, hinv.short, hinv.nonneg⟩,
    ?_, hnew, fun fd hfd => ⟨view_congr (hothers fd hfd) rfl rfl, hothers fd hfd⟩,
    fun _ _ => rfl⟩
  show (handle (s.t.fds new)).bind _ = _
  rw [Sys.file, handle_of_ne hold, handle_of_ne hnew, Option.bind_some, Option.bind_some, hfile]
  simp

theorem Redirected.freeDirOf (h : Redirected dir s s' old new) :
    Redirected dir s (s'.freeDirOf new) old new := by
  obtain ⟨hinv, hothers, hfile⟩ := h.inv.freeDirOf new
  refine ⟨hinv, ?_, h.occupied, ?_, ?_⟩
  · rw [hfile, h.file]
  · intro fd hfd
    rw [hothers fd hfd, hfile]
    exact h.others fd hfd
  · intro fd hfd
    rw [← h.dirs fd hfd]
    exact Function.update_of_ne hfd ..

theorem view_some {e : Entry φ} (h : s.view fd = some e) :
    s.file fd = some e.file ∧ s.t.flags fd = e.flags ∧ s.dirString fd = e.dir := by
  obtain ⟨file, hfile, rfl⟩ := Option.map_eq_some_iff.mp h
  exact ⟨hfile, rfl, rfl⟩

theorem view_of {e : Entry φ} (hfile : s.file fd = some e.file) (hflags : s.t.flags fd = e.flags)
    (hdir : s.dirString fd = e.dir) : s.view fd = some e := by
  rw [Sys.view, hfile, hflags, hdir, Option.map_some]

/-- The entry gets into the slot, with a string of its own. -/
theorem Redirected.copySlot {e : Entry φ} (h : Redirected dir s s' old new) (hne : old ≠ new)
    (hold : s.view old = some e) (hdir : dir = none ↔ s.t.dirs old = none)
    (hempty : s'.t.dirs new = none) :
    Inv (s'.copySlot old new dir) ∧
      (s'.copySlot old new dir).view = Function.update s.view new (some e) := by
  obtain ⟨hfile, -, -⟩ := view_some hold
  have hold' : s'.view old = some e := (h.others old hne).1.trans hold
  obtain ⟨-, hflags, hstring⟩ := view_some hold'
  unfold Sys.copySlot
  cases hd : s'.t.dirs old with
  | none =>
      obtain rfl : dir = none := hdir.mpr ((h.dirs old hne).symm.trans hd)
      refine ⟨h.inv.setFlags new _, eq_update ?_ ?_⟩
      · refine view_of (h.file.trans hfile) ?_ ?_
        · simp [FDTable.setFlags, hflags]
        · rw [← hstring]
          simp [Sys.dirString, FDTable.setFlags, hempty, hd]
      · intro fd hfd
        exact (view_setFlags s' new _ hfd).trans (h.others fd hfd).1
  | some p =>
      cases dir with
      | none =>
          rw [← h.dirs old hne, hd] at hdir
          exact absurd (hdir.mp rfl) (by simp)
      | some q =>
          obtain ⟨str, hstr⟩ : ∃ str, s'.heap.content p = some str :=
            Option.isSome_iff_exists.mp
              (h.inv.heap.isOpen (show s'.dirOwner (some q) (some old) = some p from hd))
          have hshort := h.inv.short old p str hd hstr
          have hcopy : inBuffer FILENAME_MAX ((s'.heap.content p).getD []) = str := by
            rw [hstr, Option.getD_some, inBuffer, List.take_of_length_le (by omega)]
          have hwritten : (s'.heap.write q str).content q = some str := by
            rw [Ledger.content_write, Function.update_self]
            exact h.inv.heap.isOpen (show s'.dirOwner (some q) none = some q from rfl)
          simp only [hcopy]
          obtain ⟨hwrite, hview⟩ := h.inv.write str
          obtain ⟨hstore, hothers⟩ := @InvWith.store _ _ new _ hwrite h.occupied hempty <| by
            intro q' str' hq' hstr'
            rw [← Option.some.inj hq', hwritten] at hstr'
            exact Option.some.inj hstr' ▸ hshort
          refine ⟨hstore.setFlags new _, eq_update ?_ ?_⟩
          · refine view_of (h.file.trans hfile) ?_ ?_
            · simpa [FDTable.setFlags, FDTable.setDir] using hflags
            · rw [← hstring]
              simp [Sys.dirString, FDTable.setFlags, FDTable.setDir, hd, hstr, hwritten]
          · intro fd hfd
            refine (view_setFlags _ new _ hfd).trans ((hothers fd hfd).trans ?_)
            rw [hview]
            exact (h.others fd hfd).1

theorem malloc_some {answer : Option Ptr} {q : Ptr} (hmalloc : s.malloc answer = some (q, s')) :
    s.heap.content q = none ∧ s' = { s with heap := s.heap.create q [] } := by
  unfold Sys.malloc at hmalloc
  split at hmalloc
  · split at hmalloc
    · rename_i hfree
      obtain ⟨rfl, rfl⟩ := Prod.mk.inj (Option.some.inj hmalloc)
      exact ⟨Option.isNone_iff_eq_none.mp hfree, rfl⟩
    · cases hmalloc
  · cases hmalloc

theorem InvWith.malloc {answer : Option Ptr} {q : Ptr} (h : InvWith none s)
    (hmalloc : s.malloc answer = some (q, s')) :
    InvWith (some q) s' ∧ s'.t = s.t ∧ s'.view = s.view := by
  obtain ⟨hclosed, rfl⟩ := malloc_some hmalloc
  have hsame : ∀ fd p, s.t.dirs fd = some p →
      (s.heap.create q []).content p = s.heap.content p := by
    intro fd p hp
    have hne : p ≠ q := by
      rintro rfl
      exact h.heap.not_held hclosed (some fd) hp
    rw [Ledger.content_create, Function.update_of_ne hne]
  refine ⟨⟨h.active, h.host, ?_, h.dirs, ?_, h.nonneg⟩, rfl, view_heap hsame⟩
  · have hcreate := h.heap.create (a := []) hclosed (x := none) rfl
    rwa [dirOwner_local] at hcreate
  · intro fd p str hp hstr
    exact h.short fd p str hp ((hsame fd p hp).symm.trans hstr)

theorem mallocDir_some (h : Inv s) (hmalloc : s.mallocDir a old = some (dir, s')) :
    InvWith dir s' ∧ s'.t = s.t ∧ s'.view = s.view ∧ (dir = none ↔ s.t.dirs old = none) := by
  unfold Sys.mallocDir at hmalloc
  split at hmalloc
  · rename_i hd
    obtain ⟨rfl, rfl⟩ := Prod.mk.inj (Option.some.inj hmalloc)
    exact ⟨h, rfl, rfl, iff_of_true rfl hd⟩
  · rename_i p hd
    obtain ⟨⟨q, s₁⟩, hq, heq⟩ := Option.map_eq_some_iff.mp hmalloc
    obtain ⟨rfl, rfl⟩ := Prod.mk.inj heq
    obtain ⟨hinv, ht, hview⟩ := InvWith.malloc h hq
    exact ⟨hinv, ht, hview, iff_of_false (by simp) (by simp [hd])⟩

/-! The calls. -/

/-- A call that has failed: the invariant holds, and the slots are as they were. -/
structure Failed (s : Sys φ) (r : Int) (s' : Sys φ) : Prop where
  result : r < 0
  inv : Inv s'
  t : s'.t = s.t
  view : s'.view = s.view

theorem Failed.same {r : Int} (h : Inv s) (hr : r < 0) : Failed s r s := ⟨hr, h, rfl, rfl⟩

theorem Failed.free {r : Int} (h : InvWith dir s₁) (ht : s₁.t = s.t) (hview : s₁.view = s.view)
    (hr : r < 0) : Failed s r (s₁.free dir) := by
  obtain ⟨hinv, ht', hview'⟩ := h.free
  exact ⟨hr, hinv, ht'.trans ht, hview'.trans hview⟩

/-- A slot that `fddup2` has set. -/
structure Duplicated (s : Sys φ) (oldfd newfd r : Int) (s' : Sys φ) : Prop where
  inv : Inv s'
  entry : ∃ old new : Slot, ∃ e, oldfd = (old : Nat) ∧ r = (new : Nat) ∧ s.view old = some e ∧
    s'.view = Function.update s.view new (some e) ∧
    (newfd = -1 → IsLowestFree s.view new) ∧ (newfd ≠ -1 → newfd = r)

theorem Redirected.duplicated {e : Entry φ} {oldfd newfd r : Int}
    (hred : Redirected dir s₁ s' old new) (hview : s₁.view = s.view) (hold : oldfd = (old : Nat))
    (hr : r = (new : Nat)) (hne : old ≠ new) (he : s.view old = some e)
    (hdir : dir = none ↔ s₁.t.dirs old = none) (hempty : s'.t.dirs new = none)
    (hlow : newfd = -1 → IsLowestFree s.view new) (hgiven : newfd ≠ -1 → newfd = r) :
    Duplicated s oldfd newfd r (s'.copySlot old new dir) := by
  obtain ⟨hinv, hcopy⟩ := hred.copySlot hne (hview ▸ he) hdir hempty
  exact ⟨hinv, old, new, e, hold, hr, he, hview ▸ hcopy, hlow, hgiven⟩

theorem ebadf_neg : -LINUX_EBADF < 0 := by decide

theorem enomem_neg : -LINUX_ENOMEM < 0 := by decide

theorem emfile_neg : -LINUX_EMFILE < 0 := by decide

theorem einval_neg : -LINUX_EINVAL < 0 := by decide

theorem dirs_free (h : InvWith dir s) (hfree : s.t.fds fd = -1) : s.t.dirs fd = none := by
  cases hd : s.t.dirs fd with
  | none => rfl
  | some p => exact absurd hfree (h.dirs fd p hd)

theorem fddup2_cases (h : Inv s) (oldfd newfd : Int) :
    Failed s (s.fddup2 a oldfd newfd).1 (s.fddup2 a oldfd newfd).2 ∨
      Duplicated s oldfd newfd (s.fddup2 a oldfd newfd).1 (s.fddup2 a oldfd newfd).2 := by
  unfold Sys.fddup2
  split
  · exact .inl (.same h ebadf_neg)
  rename_i old hold
  split
  · exact .inl (.same h ebadf_neg)
  rename_i hrange
  split
  · exact .inl (.same h ebadf_neg)
  rename_i hocc
  have hfd := slotOf_some hold
  obtain ⟨e, he⟩ : ∃ e, s.view old = some e :=
    Option.ne_none_iff_exists'.mp fun hnone => hocc ((view_eq_none_iff h).mp hnone)
  split
  · rename_i hsame
    refine .inr ⟨h, old, old, e, hfd, hsame ▸ hfd, he, ?_, ?_, fun _ => rfl⟩
    · rw [Function.update_eq_self_iff.mpr he.symm]
    · intro hnew
      omega
  rename_i hdiff
  split
  · exact .inl (.same h enomem_neg)
  rename_i dir s₁ hmalloc
  obtain ⟨hinv, ht, hview, hdir⟩ := mallocDir_some h hmalloc
  have hocc₁ : s₁.t.fds old ≠ -1 := ht ▸ hocc
  rw [← ht] at hdir
  split
  · rename_i hnew
    have hminus : newfd = -1 := by
      rcases slotOf_none hnew with hlt | hge <;> omega
    split
    · exact .inl (.free hinv ht hview emfile_neg)
    rename_i new hlow
    obtain ⟨hfree, hlowest⟩ := lowestFree_some hinv hlow
    have hne : old ≠ new := by
      rintro rfl
      exact hocc₁ hfree
    split
    · exact .inl (.free hinv ht hview einval_neg)
    rename_i knewfd s₂ hdup
    have hred := redirected_free hinv hocc₁ hfree hdup
    have hempty : s₂.t.dirs new = none := by
      obtain ⟨file, -, -, -, rfl⟩ := dup_some hdup
      exact dirs_free (s := s₁) hinv hfree
    exact .inr (hred.duplicated hview hfd rfl hne he hdir hempty (fun _ => hview ▸ hlowest)
      (fun hgiven => absurd hminus hgiven))
  · rename_i new hnew
    have hfd' := slotOf_some hnew
    have hne : old ≠ new := by
      rintro rfl
      exact hdiff (hfd.trans hfd'.symm)
    have hminus : newfd ≠ -1 := by omega
    split
    · rename_i hfree
      split
      · exact .inl (.free hinv ht hview einval_neg)
      rename_i knewfd s₂ hdup
      have hred := (redirected_free hinv hocc₁ hfree hdup).freeDirOf
      exact .inr (hred.duplicated hview hfd hfd' hne he hdir (Function.update_self ..)
        (fun hgiven => absurd hgiven hminus) (fun _ => rfl))
    · rename_i hocc'
      split
      · exact .inl (.free hinv ht hview einval_neg)
      rename_i s₂ hdup
      have hred := (redirected_occupied hinv hocc₁ hocc' hne hdup).freeDirOf
      exact .inr (hred.duplicated hview hfd hfd' hne he hdir (Function.update_self ..)
        (fun hgiven => absurd hgiven hminus) (fun _ => rfl))

theorem InvWith.unset (h : InvWith dir s) (hocc : s.t.fds fd ≠ -1) (hempty : s.t.dirs fd = none) :
    InvWith dir { s with host := s.host.close (s.t.fds fd), t := s.t.setFd fd (-1) } ∧
      Sys.view { s with host := s.host.close (s.t.fds fd), t := s.t.setFd fd (-1) } =
        Function.update s.view fd none := by
  have hx : s.hostOwner (.slot fd) = some (s.t.fds fd) := handle_of_ne hocc
  have howner :
      Sys.hostOwner { s with host := s.host.close (s.t.fds fd), t := s.t.setFd fd (-1) } =
        Function.update s.hostOwner (.slot fd) none := by
    rw [← handle_free]
    exact hostOwner_setFd rfl rfl
  refine ⟨⟨h.active, ?_, h.heap, ?_, h.short, ?_⟩, ?_⟩
  · rw [howner]
    exact h.host.close hx
  · intro fd' p hp
    have hne : fd' ≠ fd := by
      rintro rfl
      cases hempty.symm.trans hp
    simpa [FDTable.setFd, hne] using h.dirs fd' p hp
  · intro x k hk
    rw [howner] at hk
    by_cases hxf : x = .slot fd
    · simp [hxf] at hk
    · rw [Function.update_of_ne hxf] at hk
      exact h.nonneg x k hk
  · funext fd'
    by_cases hne : fd' = fd
    · subst hne
      simp [Sys.view, Sys.file, FDTable.setFd]
    · rw [Function.update_of_ne hne]
      refine view_congr (file_congr (Function.update_of_ne hne ..) fun k hk => ?_) rfl rfl
      have hkne : k ≠ s.t.fds fd := by
        rintro rfl
        exact hne (Holder.slot.inj (h.host.alone (.slot fd') (.slot fd) _ hk hx))
      rw [Ledger.content_close, Function.update_of_ne hkne]

/-- The order of the two steps is irrelevant. -/
theorem closeSlot_eq (s : Sys φ) (fd : Slot) :
    s.closeSlot fd =
      { s.freeDirOf fd with
        host := (s.freeDirOf fd).host.close ((s.freeDirOf fd).t.fds fd)
        t := (s.freeDirOf fd).t.setFd fd (-1) } := by
  unfold Sys.closeSlot Sys.freeDirOf
  simp only [FDTable.setFd, FDTable.setDir, free_host]
  cases s.t.dirs fd <;> rfl

theorem Inv.closeSlot (h : Inv s) (hocc : s.t.fds fd ≠ -1) :
    Inv (s.closeSlot fd) ∧ (s.closeSlot fd).view = Function.update s.view fd none := by
  obtain ⟨hinv, hothers, -⟩ := InvWith.freeDirOf h fd
  obtain ⟨hinv', hview⟩ := @InvWith.unset _ _ fd _ hinv hocc (Function.update_self ..)
  rw [closeSlot_eq]
  refine ⟨hinv', hview.trans ?_⟩
  funext fd'
  by_cases hne : fd' = fd
  · rw [hne, Function.update_self, Function.update_self]
  · rw [Function.update_of_ne hne, Function.update_of_ne hne, hothers fd' hne]

theorem fdclose_cases (h : Inv s) (x : Int) :
    (s.fdclose x = (false, s) ∧ ∀ fd : Slot, (fd : Nat) = x → s.view fd = none) ∨
      ∃ (fd : Slot) (e : Entry φ) (s' : Sys φ), s.fdclose x = (true, s') ∧ x = (fd : Nat) ∧
        s.view fd = some e ∧ Inv s' ∧ s'.view = Function.update s.view fd none := by
  unfold Sys.fdclose
  rw [h.active, if_neg Bool.false_ne_true]
  cases hx : slotOf x with
  | none =>
      refine .inl ⟨rfl, fun fd hfd => ?_⟩
      have hlt := fd.isLt
      rcases slotOf_none hx with hneg | hge <;> omega
  | some fd =>
      have hfd := slotOf_some hx
      simp only
      split
      · rename_i hfree
        refine .inl ⟨rfl, fun fd' hfd' => ?_⟩
        obtain rfl : fd' = fd := Fin.ext (by omega)
        exact (view_eq_none_iff h).mpr hfree
      · rename_i hocc
        obtain ⟨e, he⟩ : ∃ e, s.view fd = some e :=
          Option.ne_none_iff_exists'.mp fun hnone => hocc ((view_eq_none_iff h).mp hnone)
        obtain ⟨hinv, hview⟩ := h.closeSlot hocc
        refine .inr ⟨fd, e, _, rfl, hfd, he, hinv.setFlags fd 0, ?_⟩
        funext fd'
        by_cases hne : fd' = fd
        · subst hne
          have hnone := congrFun hview fd'
          rw [Function.update_self] at hnone ⊢
          rw [Sys.view, Option.map_eq_none_iff] at hnone ⊢
          exact hnone
        · exact (view_setFlags _ fd 0 hne).trans (congrFun hview fd')

theorem Inv.freeSlot (h : Inv s) (fd : Slot) :
    Inv (s.freeSlot fd) ∧ (s.freeSlot fd).view = Function.update s.view fd none := by
  unfold Sys.freeSlot
  split
  · rename_i hfree
    refine ⟨h, (Function.update_eq_self_iff.mpr ?_).symm⟩
    exact ((view_eq_none_iff h).mpr hfree).symm
  · rename_i hocc
    exact h.closeSlot hocc

theorem Inv.freeSlots (h : Inv s) (l : List Slot) :
    Inv (l.foldl Sys.freeSlot s) ∧
      ∀ fd, (l.foldl Sys.freeSlot s).view fd = if fd ∈ l then none else s.view fd := by
  induction l generalizing s with
  | nil => exact ⟨h, fun fd => by simp⟩
  | cons fd l ih =>
      obtain ⟨hinv, hview⟩ := h.freeSlot fd
      obtain ⟨hinv', hview'⟩ := ih hinv
      refine ⟨hinv', fun fd' => ?_⟩
      rw [List.foldl_cons, hview', hview]
      by_cases hne : fd' = fd <;> simp [hne]

theorem Inv.fdfree (h : Inv s) : Inv s.fdfree ∧ s.fdfree.view = fun _ => none := by
  obtain ⟨hinv, hview⟩ := h.freeSlots (List.finRange LINUX_NOFILE)
  refine ⟨hinv, funext fun fd => ?_⟩
  rw [Sys.fdfree, hview, if_pos (List.mem_finRange fd)]

/-- What `fdalloc` is given is the callee's now. -/
theorem InvWith.takeDir (h : Inv s) (hopen : ∀ p, dir = some p → (s.heap.content p).isSome)
    (hfree : ∀ p, dir = some p → ∀ fd, s.t.dirs fd ≠ some p) :
    InvWith dir (s.takeDir dir) ∧ (s.takeDir dir).t = s.t ∧ (s.takeDir dir).host = s.host ∧
      (s.takeDir dir).refs = s.refs ∧
      (s.takeDir dir).heap.content = s.heap.content ∧ (s.takeDir dir).view = s.view := by
  cases dir with
  | none => exact ⟨h, rfl, rfl, rfl, rfl, rfl⟩
  | some p =>
      refine ⟨⟨h.active, h.host, ?_, h.dirs, h.short, h.nonneg⟩, rfl, rfl, rfl, rfl,
        view_heap fun _ _ _ => rfl⟩
      have hadopt := h.heap.adopt (x := none) (hopen p rfl) ?_ rfl
      · rwa [dirOwner_local] at hadopt
      · intro x hx
        rcases x with _ | fd
        · cases hx
        · exact hfree p rfl fd hx

end LfiRuntime.Fd
