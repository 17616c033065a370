import Mathlib.Data.Fin.Tuple.Basic
import LfiRuntime.Lib.Descriptors
import LfiRuntime.Linux.Fd

/-!
The invariant of the descriptor table, and what each part of its calls does with the
slots.
-/

namespace LfiRuntime.Fd

open LfiRuntime.Cwalk
open LfiRuntime.Descriptors
open LfiRuntime.Handles
open LfiRuntime.Path

variable {φ : Type*} {s s' : Sys φ} {fd old new : Slot} {dir : Option Ptr} {v : Int}

/-- `dir` is the local variable of the call that runs. -/
structure InvWith (dir : Option Ptr) (s : Sys φ) : Prop where
  active : s.t.passthrough = false
  host : Keeps s.host s.hostOwner
  heap : Keeps s.heap (s.dirOwner dir)
  dirs : ∀ fd p, s.t.dirs fd = some p → s.t.fds fd ≠ -1
  short : ∀ fd p str, s.t.dirs fd = some p → s.heap.content p = some str →
    str.length < FILENAME_MAX
  nonneg : ∀ x h, s.hostOwner x = some h → 0 ≤ h

/-- The invariant between calls. -/
def Inv (s : Sys φ) : Prop := InvWith none s

/-- What a slot refers to. -/
structure Entry (φ : Type*) where
  file : φ
  flags : Int
  dir : Option Str

namespace Sys

def file (s : Sys φ) (fd : Slot) : Option φ := (handle (s.t.fds fd)).bind s.host.content

def dirString (s : Sys φ) (fd : Slot) : Option Str := (s.t.dirs fd).bind s.heap.content

def view (s : Sys φ) : Table LINUX_NOFILE (Entry φ) := fun fd =>
  (s.file fd).map fun file => ⟨file, s.t.flags fd, s.dirString fd⟩

end Sys

@[simp] theorem handle_free : handle (-1) = none := rfl

theorem handle_of_ne (h : v ≠ -1) : handle v = some v := if_neg h

theorem handle_some {h : Int} (hv : handle v = some h) : v ≠ -1 ∧ v = h := by
  unfold handle at hv
  split at hv
  · cases hv
  · rename_i hne
    exact ⟨hne, Option.some.inj hv⟩

/-! The holders after a change of the table. -/

theorem hostOwner_setFd (hfds : s'.t.fds = Function.update s.t.fds fd v)
    (hrefs : s'.refs = s.refs) :
    s'.hostOwner = Function.update s.hostOwner (.slot fd) (handle v) := by
  funext x
  rcases x with fd' | r
  · by_cases heq : fd' = fd <;> simp [Sys.hostOwner, hfds, heq]
  · simp [Sys.hostOwner, hrefs]

theorem hostOwner_setRef {r : Nat} (hfds : s'.t.fds = s.t.fds)
    (hrefs : s'.refs = Function.update s.refs r v) :
    s'.hostOwner = Function.update s.hostOwner (.ref r) (handle v) := by
  funext x
  rcases x with fd' | r'
  · simp [Sys.hostOwner, hfds]
  · by_cases heq : r' = r <;> simp [Sys.hostOwner, hrefs, heq]

theorem dirOwner_setDir {d : Option Ptr} (hdirs : s'.t.dirs = Function.update s.t.dirs fd d) :
    s'.dirOwner dir = Function.update (s.dirOwner dir) (some fd) d := by
  funext x
  rcases x with _ | fd'
  · simp [Sys.dirOwner]
  · by_cases heq : fd' = fd <;> simp [Sys.dirOwner, hdirs, heq]

theorem dirOwner_local (s : Sys φ) (dir dir' : Option Ptr) :
    Function.update (s.dirOwner dir) none dir' = s.dirOwner dir' := by
  funext x
  rcases x with _ | fd'
  · rfl
  · rfl

/-! What a slot refers to. -/

theorem file_eq_none_iff (h : InvWith dir s) : s.file fd = none ↔ s.t.fds fd = -1 := by
  constructor
  · intro hnone
    by_contra hne
    have hopen := h.host.isOpen (show s.hostOwner (.slot fd) = some _ from handle_of_ne hne)
    rw [Sys.file, handle_of_ne hne, Option.bind_some] at hnone
    rw [hnone] at hopen
    cases hopen
  · intro hfree
    rw [Sys.file, hfree, handle_free, Option.bind_none]

theorem view_eq_none_iff (h : InvWith dir s) : s.view fd = none ↔ s.t.fds fd = -1 := by
  rw [Sys.view, Option.map_eq_none_iff, file_eq_none_iff h]

theorem view_congr (hfile : s'.file fd = s.file fd) (hflags : s'.t.flags fd = s.t.flags fd)
    (hdir : s'.dirString fd = s.dirString fd) : s'.view fd = s.view fd := by
  rw [Sys.view, Sys.view, hfile, hflags, hdir]

theorem file_congr (hfds : s'.t.fds fd = s.t.fds fd)
    (hcontent : ∀ h, handle (s.t.fds fd) = some h → s'.host.content h = s.host.content h) :
    s'.file fd = s.file fd := by
  rw [Sys.file, Sys.file, hfds]
  cases hh : handle (s.t.fds fd) with
  | none => rfl
  | some h => exact hcontent h hh

theorem dirString_congr (hdirs : s'.t.dirs fd = s.t.dirs fd)
    (hcontent : ∀ p, s.t.dirs fd = some p → s'.heap.content p = s.heap.content p) :
    s'.dirString fd = s.dirString fd := by
  rw [Sys.dirString, Sys.dirString, hdirs]
  cases hp : s.t.dirs fd with
  | none => rfl
  | some p => exact hcontent p hp

/-- Only a slot's own string shows. -/
theorem view_heap {heap : Ledger Ptr Str}
    (hcontent : ∀ fd p, s.t.dirs fd = some p → heap.content p = s.heap.content p) :
    Sys.view { s with heap := heap } = s.view :=
  funext fun fd => view_congr rfl rfl (dirString_congr rfl (hcontent fd))

theorem view_host {host : Ledger Int φ} {refs : Nat → Int}
    (hcontent : ∀ fd h, handle (s.t.fds fd) = some h → host.content h = s.host.content h) :
    Sys.view { s with host := host, refs := refs } = s.view :=
  funext fun fd => view_congr (file_congr rfl (hcontent fd)) rfl rfl

theorem lowestFree_some (h : InvWith dir s) (hfd : s.t.lowestFree = some fd) :
    s.t.fds fd = -1 ∧ IsLowestFree s.view fd := by
  obtain ⟨hfree, hlow⟩ := Fin.find?_eq_some_iff.mp hfd
  refine ⟨of_decide_eq_true hfree, (view_eq_none_iff h).mpr (of_decide_eq_true hfree), ?_⟩
  intro fd' hlt hnone
  exact of_decide_eq_false (hlow fd' hlt) ((view_eq_none_iff h).mp hnone)

theorem lowestFree_none (h : InvWith dir s) (hfull : s.t.lowestFree = none) (fd : Slot) :
    s.view fd ≠ none := by
  intro hnone
  exact of_decide_eq_false (Fin.find?_eq_none_iff.mp hfull fd) ((view_eq_none_iff h).mp hnone)

theorem slotOf_some {x : Int} (h : slotOf x = some fd) : x = (fd : Nat) := by
  unfold slotOf at h
  split at h
  · rename_i hrange
    obtain rfl := Option.some.inj h
    exact (Int.toNat_of_nonneg hrange.1).symm
  · cases h

theorem slotOf_none {x : Int} (h : slotOf x = none) : x < 0 ∨ LINUX_NOFILE ≤ x := by
  unfold slotOf at h
  split at h
  · cases h
  · omega

/-! Strings. -/

/-- A string that the running call holds is no slot's. -/
theorem InvWith.local_ne (h : InvWith dir s) {p q : Ptr} (hdir : dir = some p)
    (hq : s.t.dirs fd = some q) : q ≠ p := by
  rintro rfl
  have heq := h.heap.alone none (some fd) q hdir hq
  cases heq

theorem InvWith.free (h : InvWith dir s) :
    InvWith none (s.free dir) ∧ (s.free dir).t = s.t ∧ (s.free dir).view = s.view := by
  cases dir with
  | none => exact ⟨h, rfl, rfl⟩
  | some p =>
      have hsame : ∀ fd q, s.t.dirs fd = some q →
          (s.heap.close p).content q = s.heap.content q := by
        intro fd q hq
        rw [Ledger.content_close, Function.update_of_ne (h.local_ne rfl hq)]
      refine ⟨⟨h.active, h.host, ?_, h.dirs, ?_, h.nonneg⟩, rfl, view_heap hsame⟩
      · have hclose := h.heap.close (x := none) rfl
        rwa [dirOwner_local] at hclose
      · intro fd q str hq hstr
        exact h.short fd q str hq ((hsame fd q hq).symm.trans hstr)

/-- A string that the running call has gets into a slot. -/
theorem InvWith.store (h : InvWith dir s) (hocc : s.t.fds new ≠ -1) (hempty : s.t.dirs new = none)
    (hshort : ∀ p str, dir = some p → s.heap.content p = some str → str.length < FILENAME_MAX) :
    InvWith none { s with t := s.t.setDir new dir } ∧
      ∀ fd, fd ≠ new → Sys.view { s with t := s.t.setDir new dir } fd = s.view fd := by
  have hdirs : ∀ fd, (s.t.setDir new dir).dirs fd = if fd = new then dir else s.t.dirs fd := by
    intro fd
    by_cases heq : fd = new <;> simp [FDTable.setDir, heq]
  constructor
  · refine ⟨h.active, h.host, ?_, ?_, ?_, h.nonneg⟩
    · show Keeps s.heap _
      rw [dirOwner_setDir (s := s) rfl]
      cases hdir : dir with
      | none =>
          rw [Function.update_eq_self_iff.mpr
            (show none = s.dirOwner none (some new) from hempty.symm)]
          exact hdir ▸ h.heap
      | some p =>
          have hmove := h.heap.move (x := none) (y := some new) hdir hempty
          rwa [dirOwner_local] at hmove
    · intro fd p hp
      rw [hdirs] at hp
      split at hp
      · rename_i heq
        exact heq ▸ hocc
      · exact h.dirs fd p hp
    · intro fd p str hp hstr
      rw [hdirs] at hp
      split at hp
      · exact hshort p str hp hstr
      · exact h.short fd p str hp hstr
  · intro fd hfd
    refine view_congr rfl rfl (dirString_congr ?_ fun _ _ => rfl)
    rw [hdirs, if_neg hfd]

theorem InvWith.write {q : Ptr} (h : InvWith (some q) s) (str : Str) :
    InvWith (some q) { s with heap := s.heap.write q str } ∧
      Sys.view { s with heap := s.heap.write q str } = s.view := by
  have hopen := h.heap.isOpen (x := none) (h := q) rfl
  have hsame : ∀ fd p, s.t.dirs fd = some p →
      (s.heap.write q str).content p = s.heap.content p := by
    intro fd p hp
    rw [Ledger.content_write hopen, Function.update_of_ne (h.local_ne rfl hp)]
  refine ⟨⟨h.active, h.host, h.heap.write, h.dirs, ?_, h.nonneg⟩, view_heap hsame⟩
  intro fd p str' hp hstr
  exact h.short fd p str' hp ((hsame fd p hp).symm.trans hstr)

theorem InvWith.setFlags (h : InvWith dir s) (fd : Slot) (flags : Int) :
    InvWith dir { s with t := s.t.setFlags fd flags } :=
  ⟨h.active, h.host, h.heap, h.dirs, h.short, h.nonneg⟩

theorem view_setFlags (s : Sys φ) (fd : Slot) (flags : Int) {fd' : Slot} (hne : fd' ≠ fd) :
    Sys.view { s with t := s.t.setFlags fd flags } fd' = s.view fd' :=
  view_congr rfl (Function.update_of_ne hne ..) rfl

theorem free_host (s : Sys φ) (dir : Option Ptr) : (s.free dir).host = s.host := by
  cases dir <;> rfl

theorem free_refs (s : Sys φ) (dir : Option Ptr) : (s.free dir).refs = s.refs := by
  cases dir <;> rfl

theorem InvWith.freeDirOf (h : InvWith dir s) (fd : Slot) :
    InvWith dir (s.freeDirOf fd) ∧ (∀ fd', fd' ≠ fd → (s.freeDirOf fd).view fd' = s.view fd') ∧
      (s.freeDirOf fd).file = s.file := by
  have hdirs : ∀ fd' p, (s.freeDirOf fd).t.dirs fd' = some p → fd' ≠ fd ∧ s.t.dirs fd' = some p := by
    intro fd' p hp
    by_cases heq : fd' = fd
    · subst heq
      simp [Sys.freeDirOf, FDTable.setDir] at hp
    · exact ⟨heq, by simpa [Sys.freeDirOf, FDTable.setDir, heq] using hp⟩
  have hsame : ∀ fd' p, (s.freeDirOf fd).t.dirs fd' = some p →
      (s.freeDirOf fd).heap.content p = s.heap.content p := by
    intro fd' p hp
    obtain ⟨hne, hp'⟩ := hdirs fd' p hp
    cases hd : s.t.dirs fd with
    | none => simp [Sys.freeDirOf, hd, Sys.free]
    | some q =>
        have hpq : p ≠ q := by
          rintro rfl
          exact hne (Option.some.inj (h.heap.alone (some fd') (some fd) p hp' hd))
        simp [Sys.freeDirOf, hd, Sys.free, hpq]
  have hhost : (s.freeDirOf fd).host = s.host := free_host s _
  have howner : (s.freeDirOf fd).hostOwner = s.hostOwner := by
    funext x
    rcases x with fd' | r
    · rfl
    · show handle ((s.free _).refs r) = _
      rw [free_refs]
      rfl
  refine ⟨⟨h.active, ?_, ?_, ?_, ?_, ?_⟩, ?_, ?_⟩
  · rw [hhost, howner]
    exact h.host
  · rw [@dirOwner_setDir _ s _ fd _ none rfl]
    cases hd : s.t.dirs fd with
    | none =>
        rw [Function.update_eq_self_iff.mpr (show none = s.dirOwner dir (some fd) from hd.symm)]
        simp only [Sys.freeDirOf, hd, Sys.free]
        exact h.heap
    | some q =>
        simp only [Sys.freeDirOf, hd, Sys.free]
        exact h.heap.close hd
  · intro fd' p hp
    exact h.dirs fd' p (hdirs fd' p hp).2
  · intro fd' p str hp hstr
    rw [hsame fd' p hp] at hstr
    exact h.short fd' p str (hdirs fd' p hp).2 hstr
  · rw [howner]
    exact h.nonneg
  · intro fd' hne
    refine view_congr (file_congr rfl fun _ _ => by rw [hhost]) rfl ?_
    cases hp : (s.freeDirOf fd).t.dirs fd' with
    | none =>
        have hp' : s.t.dirs fd' = none := by
          simpa [Sys.freeDirOf, FDTable.setDir, hne] using hp
        rw [Sys.dirString, Sys.dirString, hp, hp']
        rfl
    | some p =>
        rw [Sys.dirString, Sys.dirString, hp, (hdirs fd' p hp).2, Option.bind_some,
          Option.bind_some, hsame fd' p hp]
  · funext fd'
    exact file_congr rfl fun _ _ => by rw [hhost]

end LfiRuntime.Fd
