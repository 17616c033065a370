import LfiRuntime.Linux.FdRuns
import LfiRuntime.Linux.PathConfine
import LfiRuntime.Linux.PathLong
import LfiRuntime.Linux.Vectored

/-!
`sys_openat`, `sys_dup`, `sys_dup3`, `sys_close`, `sys_chdir` and `sys_fchdir`: a
descriptor of a directory keeps the path it was opened by.
-/

namespace LfiRuntime.Fchdir

open LfiRuntime.Cwalk
open LfiRuntime.Descriptors
open LfiRuntime.Fd
open LfiRuntime.Handles
open LfiRuntime.Path
open LfiRuntime.Runs
open LfiRuntime.Vectored

def LINUX_AT_FDCWD : Int := -100
def LINUX_ENOTDIR : Int := 20

/-- The mappings of the engine, and a host file system: the file at a host path, if there
is one, and which files are directories. -/
structure Env (φ : Type*) where
  dirMaps : Option (List Str)
  stat : Str → Option φ
  isDir : φ → Bool

/-- What the host answers: the `malloc` of `pathcopy`, `open`, and the calls of `fddup2`. -/
structure Answers where
  malloc : Option Ptr
  kfd : Option Int
  errno : HostErrno
  dup : Fd.Answers

/-- `openedAt` is no part of the program: the working directory when the file of a slot
was opened, and `none` for a file that the process was given. -/
structure Proc (φ : Type*) where
  fdtable : Sys φ
  cwd : Str
  openedAt : Slot → Option Str

variable {φ : Type*}

namespace Env

/-- The file that a path names in a working directory. -/
def named (env : Env φ) (cwd path : Str) : Option φ :=
  (pathResolve env.dirMaps cwd path FILENAME_MAX).bind env.stat

/-- The directory that a working directory is. -/
def denotes (env : Env φ) (cwd : Str) : Option φ := env.named cwd cwd

/-- `host_checkdir`. -/
def hostCheckdir (env : Env φ) (path : Str) : Int :=
  match env.stat path with
  | none => -LINUX_ENOENT
  | some file => if env.isDir file then 0 else -LINUX_ENOTDIR

end Env

namespace Proc

/-- `pathcopy`, with `none` where the address is not of the sandbox or `malloc` fails.
`path` is what the sandbox has there. -/
def pathcopy (s : Proc φ) (a : Answers) (path : Str) : Option (Ptr × Proc φ) :=
  match a.malloc with
  | none => none
  | some p =>
    if (s.fdtable.heap.content p).isNone then
      some (p, { s with fdtable.heap := s.fdtable.heap.issue p (inBuffer FILENAME_MAX path) })
    else none

/-- `free`, by the caller. -/
def free (s : Proc φ) (p : Ptr) : Proc φ := { s with fdtable.heap := s.fdtable.heap.drop p }

/-- `pathcopyresolve`: the copy, and the host path. -/
def pathcopyresolve (env : Env φ) (s : Proc φ) (a : Answers) (path : Str) :
    Option (Ptr × Str) × Proc φ :=
  match s.pathcopy a path with
  | none => (none, s)
  | some (p, s) =>
    match pathResolve env.dirMaps s.cwd (inBuffer FILENAME_MAX path) FILENAME_MAX with
    | none => (none, s.free p)
    | some hostPath => (some (p, hostPath), s)

/-- `open`. A descriptor that is not free is not given out. -/
def openFile (env : Env φ) (s : Proc φ) (a : Answers) (hostPath : Str) : Option (Int × Proc φ) :=
  match a.kfd, env.stat hostPath with
  | some kfd, some file =>
    if 0 ≤ kfd ∧ (s.fdtable.host.content kfd).isNone then
      some (kfd, { s with fdtable.host := s.fdtable.host.issue kfd file })
    else none
  | _, _ => none

/-- `close`, by the caller. -/
def closeFile (s : Proc φ) (kfd : Int) : Proc φ :=
  { s with fdtable.host := s.fdtable.host.drop kfd }

/-- The end of `sys_openat`. -/
def putFd (s : Proc φ) (kfd : Int) (dir : Option Ptr) (flags : Int) : Int × Proc φ :=
  let (fd, t) := s.fdtable.fdalloc kfd dir flags
  if fd < 0 then (fd, { s with fdtable := t }.closeFile kfd)
  else
    (fd, { s with
      fdtable := t
      openedAt := fun slot => if (slot : Nat) = fd then some s.cwd else s.openedAt slot })

/-- `sys_openat`. -/
def sysOpenat (env : Env φ) (s : Proc φ) (a : Answers) (dirfd : Int) (path : Str) (flags : Int) :
    Int × Proc φ :=
  if dirfd ≠ LINUX_AT_FDCWD then (-LINUX_EBADF, s)
  else
    match s.pathcopyresolve env a path with
    | (none, s) => (-LINUX_ENOENT, s)
    | (some (p, hostPath), s) =>
      match s.openFile env a hostPath with
      | none => (hostErr a.errno, s.free p)
      | some (kfd, s) =>
        let isdir := env.hostCheckdir hostPath = 0
        let dir := if isdir then some p else none
        let s := if isdir then s else s.free p
        s.putFd kfd dir flags

/-- What follows a call of `fddup2`: a new slot has the history of the old one. -/
def afterDup (s : Proc φ) (oldfd : Int) (r : Int × Sys φ) : Int × Proc φ :=
  (r.1, { s with
    fdtable := r.2
    openedAt := fun slot =>
      if (slot : Nat) = r.1 then (slotOf oldfd).bind s.openedAt else s.openedAt slot })

/-- `sys_dup`. -/
def sysDup (s : Proc φ) (a : Answers) (oldfd : Int) : Int × Proc φ :=
  s.afterDup oldfd (s.fdtable.fddup2 a.dup oldfd (-1))

/-- `sys_dup3`. -/
def sysDup3 (s : Proc φ) (a : Answers) (oldfd newfd flags : Int) : Int × Proc φ :=
  if flags ≠ 0 then (-LINUX_EINVAL, s)
  else s.afterDup oldfd (s.fdtable.fddup2 a.dup oldfd newfd)

/-- `sys_close`. -/
def sysClose (s : Proc φ) (fd : Int) : Int × Proc φ :=
  let (closed, t) := s.fdtable.fdclose fd
  (if closed then 0 else -LINUX_EBADF, { s with fdtable := t })

/-- `sys_chdir`. -/
def sysChdir (env : Env φ) (s : Proc φ) (a : Answers) (path : Str) : Int × Proc φ :=
  match s.pathcopy a path with
  | none => (-LINUX_EINVAL, s)
  | some (p, s) =>
    let (r, cwd) := procChdir env.dirMaps env.hostCheckdir s.cwd (inBuffer FILENAME_MAX path)
    (r, { s with cwd := cwd }.free p)

/-- `sys_fchdir`. -/
def sysFchdir (env : Env φ) (s : Proc φ) (fd : Int) : Int × Proc φ :=
  match slotOf fd with
  | none => (-LINUX_EBADF, s)
  | some slot =>
    if s.fdtable.t.fds slot = -1 then (-LINUX_EBADF, s)
    else
      match s.fdtable.t.dirs slot with
      | none => (-LINUX_ENOTDIR, s)
      | some p =>
        let d := (s.fdtable.heap.content p).getD []
        let (r, cwd) := Path.sysFchdir env.dirMaps env.hostCheckdir s.cwd d
        (r, { s with cwd := cwd })

end Proc

/-- The system calls. -/
inductive Call
  | openat (dirfd : Int) (path : Str) (flags : Int)
  | dup (oldfd : Int)
  | dup3 (oldfd newfd flags : Int)
  | close (fd : Int)
  | chdir (path : Str)
  | fchdir (fd : Int)

def Proc.exec (env : Env φ) (s : Proc φ) (a : Answers) : Call → Int × Proc φ
  | .openat dirfd path flags => s.sysOpenat env a dirfd path flags
  | .dup oldfd => s.sysDup a oldfd
  | .dup3 oldfd newfd flags => s.sysDup3 a oldfd newfd flags
  | .close fd => s.sysClose fd
  | .chdir path => s.sysChdir env a path
  | .fchdir fd => s.sysFchdir env fd

def Step (env : Env φ) (s : Proc φ) (c : Answers × Call) (s' : Proc φ) : Prop :=
  s' = (s.exec env c.1 c.2).2

/-- What `lfi_proc_new` starts with; an `opts.wd` is a first `chdir`. -/
structure Start (s : Proc φ) : Prop where
  fdtable : Fd.Start s.fdtable
  cwd : s.cwd = []
  openedAt : ∀ slot, s.openedAt slot = none

/-- A `sys_fchdir` that succeeds gets to the directory that is open, and it succeeds on
every directory that the process has opened. -/
def Returns (env : Env φ) (s : Proc φ) (fd : Int) : Prop :=
  ∀ slot e, slotOf fd = some slot → s.fdtable.view slot = some e →
    ((s.sysFchdir env fd).1 = 0 →
      env.denotes (s.sysFchdir env fd).2.cwd = some e.file) ∧
    (env.isDir e.file → (s.openedAt slot).isSome → (s.sysFchdir env fd).1 = 0)

/-- The path that is kept for `fd`, if one is, is absolute, or it names the same file from
the working directory as from the one in which it was opened. -/
def PathStands (env : Env φ) (s : Proc φ) (fd : Int) : Prop :=
  ∀ slot e path, slotOf fd = some slot → s.fdtable.view slot = some e → e.dir = some path →
    isAbsolute path = true ∨
      s.cwd ≠ [] ∧ ∃ cwd, s.openedAt slot = some cwd ∧ env.named s.cwd path = env.named cwd path

variable {env : Env φ} {s s' : Proc φ} {a : Answers} {cwd cwd' path path' : Str}

/-! The working directory. -/

theorem pathResolve_congr {dirMaps : Option (List Str)} (h : absPath cwd path = absPath cwd' path') :
    pathResolve dirMaps cwd path FILENAME_MAX = pathResolve dirMaps cwd' path' FILENAME_MAX := by
  unfold pathResolve
  rw [h]

theorem absPath_absolute (habs : isAbsolute path = true) : absPath cwd path = path := if_pos habs

theorem named_absolute (habs : isAbsolute path = true) :
    env.named cwd path = env.named cwd' path := by
  unfold Env.named
  rw [@pathResolve_congr cwd cwd' path path]
  rw [absPath_absolute habs, absPath_absolute habs]

theorem denotes_absPath (habs : isAbsolute (absPath cwd path) = true) :
    env.denotes (absPath cwd path) = env.named cwd path := by
  unfold Env.denotes Env.named
  rw [pathResolve_congr (absPath_absolute habs)]

theorem chdirCheck_cases (env : Env φ) (cwd path : Str) :
    (∃ file, env.named cwd path = some file ∧ env.isDir file = true ∧
        chdirCheck env.dirMaps env.hostCheckdir cwd path = 0) ∨
      (∀ file, env.named cwd path = some file → env.isDir file = false) ∧
        chdirCheck env.dirMaps env.hostCheckdir cwd path < 0 := by
  unfold chdirCheck Env.named
  cases pathResolve env.dirMaps cwd path FILENAME_MAX with
  | none => exact .inr ⟨fun file hfile => (by cases hfile), by simp [LINUX_ENOENT]⟩
  | some resolved =>
      simp only [Option.bind_some, Env.hostCheckdir]
      cases env.stat resolved with
      | none => exact .inr ⟨fun file hfile => (by cases hfile), by simp [LINUX_ENOENT]⟩
      | some file =>
          cases hdir : env.isDir file with
          | true => exact .inl ⟨file, rfl, hdir, by simp [hdir]⟩
          | false =>
              refine .inr ⟨fun file' hfile => ?_, by simp [hdir, LINUX_ENOTDIR]⟩
              rwa [← Option.some.inj hfile]

/-- What `proc_chdir` does with a path that fits its buffer. -/
inductive Chdir (env : Env φ) (cwd path : Str) : Int × Str → Prop
  | unset (hrel : isAbsolute path = false) (hcwd : cwd = []) :
      Chdir env cwd path (-LINUX_ENOENT, cwd)
  | refused {r : Int} (hstart : isAbsolute path = true ∨ cwd ≠ [])
      (hdir : ∀ file, env.named cwd path = some file → env.isDir file = false) (hr : r < 0) :
      Chdir env cwd path (r, cwd)
  | done {file : φ} (hstart : isAbsolute path = true ∨ cwd ≠ [])
      (hfile : env.named cwd path = some file) (hdir : env.isDir file = true) :
      Chdir env cwd path (0, absPath cwd path)

theorem procChdir_chdir (hcwd : CwdOk cwd) (hshort : path.length < FILENAME_MAX) :
    Chdir env cwd path (procChdir env.dirMaps env.hostCheckdir cwd path) := by
  unfold procChdir
  split
  · rename_i habs
    rcases chdirCheck_cases env cwd path with ⟨file, hfile, hdir, hr⟩ | ⟨hdir, hr⟩
    · simp only [hr, lt_irrefl, if_false]
      rw [inBuffer_of_lt hshort]
      simpa only [absPath_absolute habs] using Chdir.done (.inl habs) hfile hdir
    · simp only [hr, if_true]
      exact .refused (.inl habs) hdir hr
  · rename_i hrel
    rw [Bool.not_eq_true] at hrel
    split
    · rename_i hnil
      exact .unset hrel hnil
    · rename_i hne
      have hjoined : inBuffer FILENAME_MAX (join cwd path) = absPath cwd path := by
        simp [absPath, hrel]
      have habs := isAbsolute_absPath hcwd (.inr hne : isAbsolute path = true ∨ cwd ≠ [])
      have hnamed : env.named cwd (absPath cwd path) = env.named cwd path := by
        exact (named_absolute habs).trans (denotes_absPath habs)
      simp only [hjoined]
      rcases chdirCheck_cases env cwd (absPath cwd path) with ⟨file, hfile, hdir, hr⟩ | ⟨hdir, hr⟩
      · simp only [hr, lt_irrefl, if_false]
        rw [← hjoined, inBuffer_inBuffer, hjoined]
        exact .done (.inr hne) (hnamed ▸ hfile) hdir
      · simp only [hr, if_true]
        exact .refused (.inr hne) (hnamed ▸ hdir) hr

theorem Chdir.cwdOk {out : Int × Str} (h : Chdir env cwd path out) (hcwd : CwdOk cwd) :
    CwdOk out.2 := by
  rcases h with ⟨-, -⟩ | ⟨-, -, -⟩ | ⟨hstart, -, -⟩
  · exact hcwd
  · exact hcwd
  · exact .inr (isAbsolute_absPath hcwd hstart)

theorem inBuffer_length_lt (path : Str) : (inBuffer FILENAME_MAX path).length < FILENAME_MAX := by
  have hle : (path.take (FILENAME_MAX - 1)).length ≤ FILENAME_MAX - 1 := List.length_take_le ..
  exact lt_of_le_of_lt hle (by decide)

/-! The table. -/

/-- What is known of a file by its history: a directory that the process has opened has
its path kept, which named it where it was opened. -/
def Recorded (env : Env φ) (e : Entry φ) : Option Str → Prop
  | none => e.dir = none
  | some cwd =>
    (env.isDir e.file = true ↔ e.dir.isSome) ∧
      ∀ path, e.dir = some path → path.length < FILENAME_MAX ∧ env.named cwd path = some e.file

structure Inv (env : Env φ) (s : Proc φ) : Prop where
  fdtable : Fd.Inv s.fdtable
  cwd : CwdOk s.cwd
  recorded : ∀ slot e, s.fdtable.view slot = some e → Recorded env e (s.openedAt slot)

/-- The slots are as they were, and so is all that belongs to them. -/
structure Kept (s s' : Proc φ) : Prop where
  slots : SlotsKept s.fdtable s'.fdtable
  cwd : s'.cwd = s.cwd
  openedAt : s'.openedAt = s.openedAt

theorem Kept.refl (h : Fd.Inv s.fdtable) : Kept s s := ⟨⟨h, rfl, rfl⟩, rfl, rfl⟩

theorem Kept.trans {s₁ : Proc φ} (h₁ : Kept s s₁) (h₂ : Kept s₁ s') : Kept s s' :=
  ⟨⟨h₂.slots.inv, h₂.slots.t.trans h₁.slots.t, h₂.slots.view.trans h₁.slots.view⟩,
    h₂.cwd.trans h₁.cwd, h₂.openedAt.trans h₁.openedAt⟩

theorem Inv.kept (h : Inv env s) (hkept : Kept s s') : Inv env s' := by
  refine ⟨hkept.slots.inv, hkept.cwd ▸ h.cwd, fun slot e he => ?_⟩
  rw [hkept.openedAt]
  exact h.recorded slot e (hkept.slots.view ▸ he)

theorem kept_free {p : Ptr} (h : Fd.Inv s.fdtable) (hp : ∀ slot, s.fdtable.t.dirs slot ≠ some p) :
    Kept s (s.free p) :=
  ⟨h.outside (a := ⟨none, false, none⟩) (c := .freeDir p) hp (.inr (.inr (.inr ⟨_, rfl⟩))),
    rfl, rfl⟩

theorem kept_closeFile {kfd : Int} (h : Fd.Inv s.fdtable)
    (hkfd : ∀ x, s.fdtable.hostOwner x ≠ some kfd) : Kept s (s.closeFile kfd) :=
  ⟨h.outside (a := ⟨none, false, none⟩) (c := .closeFile kfd) hkfd (.inr (.inl ⟨_, rfl⟩)),
    rfl, rfl⟩

/-- A copy of a path that no slot has. -/
structure Copied (s : Proc φ) (p : Ptr) (str : Str) (s' : Proc φ) : Prop where
  kept : Kept s s'
  content : s'.fdtable.heap.content p = some str
  foreign : ∀ slot, s'.fdtable.t.dirs slot ≠ some p
  host : s'.fdtable.host = s.fdtable.host

theorem pathcopy_some {p : Ptr} (h : Fd.Inv s.fdtable) (hcopy : s.pathcopy a path = some (p, s')) :
    Copied s p (inBuffer FILENAME_MAX path) s' := by
  unfold Proc.pathcopy at hcopy
  split at hcopy
  · cases hcopy
  · split at hcopy
    · rename_i q _ hfresh
      cases hcopy
      have hnone := Option.isNone_iff_eq_none.mp hfresh
      have hslots := h.outside (a := a.dup) (c := .mallocDir p (inBuffer FILENAME_MAX path)) hnone
        (.inr (.inr (.inl ⟨_, _, rfl⟩)))
      refine ⟨⟨hslots, rfl, rfl⟩, by simp, fun slot hslot => ?_, rfl⟩
      exact h.heap.not_held hnone (some slot) hslot
    · cases hcopy

theorem Copied.free {p : Ptr} {str : Str} {s₁ : Proc φ} (h : Copied s p str s₁) :
    Kept s (s₁.free p) :=
  h.kept.trans (kept_free h.kept.slots.inv h.foreign)

/-- A slot that has got a file. -/
structure Opened (s : Proc φ) (new : Slot) (e : Entry φ) (s' : Proc φ) : Prop where
  inv : Fd.Inv s'.fdtable
  cwd : s'.cwd = s.cwd
  free : IsLowestFree s.fdtable.view new
  view : s'.fdtable.view = Function.update s.fdtable.view new (some e)
  openedAt : s'.openedAt = Function.update s.openedAt new (some s.cwd)

theorem putFd_cases {kfd flags : Int} {dir : Option Ptr} {file : φ} (h : Fd.Inv s.fdtable)
    (hadm : Admits s.fdtable (.fdalloc kfd dir flags))
    (hfile : s.fdtable.host.content kfd = some file) :
    ((s.putFd kfd dir flags).1 < 0 ∧ Kept s (s.putFd kfd dir flags).2) ∨
      ∃ new : Slot, (s.putFd kfd dir flags).1 = (new : Nat) ∧
        Opened s new (s.fdtable.given file dir flags) (s.putFd kfd dir flags).2 := by
  unfold Proc.putFd
  rcases fdalloc_cases h hadm hfile with ⟨hfailed, -⟩ | ⟨new, hr, hlow, hinv, hview⟩
  · have hslots : SlotsKept s.fdtable (s.fdtable.fdalloc kfd dir flags).2 :=
      ⟨hfailed.inv, hfailed.t, hfailed.view⟩
    have hkept : Kept s { s with fdtable := (s.fdtable.fdalloc kfd dir flags).2 } :=
      ⟨hslots, rfl, rfl⟩
    simp only [hfailed.result, if_true]
    refine .inl ⟨trivial, hkept.trans (kept_closeFile hfailed.inv fun x hx => ?_)⟩
    apply hadm.1.2.2 x
    rcases x with slot | r
    · simpa [Sys.hostOwner, hfailed.t] using hx
    · simpa [Sys.hostOwner, fdalloc_refs] using hx
  · have hpos : ¬(s.fdtable.fdalloc kfd dir flags).1 < 0 := by omega
    simp only [hpos, if_false]
    refine .inr ⟨new, hr, hinv, rfl, hlow, hview, ?_⟩
    funext slot
    by_cases heq : slot = new
    · simp [heq, hr]
    · have hne : ¬(slot : Nat) = (new : Nat) := fun hval => heq (Fin.ext hval)
      simp [heq, hr, hne]

theorem pathcopyresolve_cases (env : Env φ) (h : Fd.Inv s.fdtable) (a : Answers) (path : Str) :
    (∃ s', s.pathcopyresolve env a path = (none, s') ∧ Kept s s') ∨
      ∃ p hostPath s', s.pathcopyresolve env a path = (some (p, hostPath), s') ∧
        Copied s p (inBuffer FILENAME_MAX path) s' ∧
        pathResolve env.dirMaps s.cwd (inBuffer FILENAME_MAX path) FILENAME_MAX = some hostPath := by
  unfold Proc.pathcopyresolve
  rcases hcopy : s.pathcopy a path with _ | ⟨p, s₁⟩
  · exact .inl ⟨s, rfl, .refl h⟩
  · have hcopied := pathcopy_some h hcopy
    simp only [hcopied.kept.cwd]
    rcases hresolve : pathResolve env.dirMaps s.cwd (inBuffer FILENAME_MAX path) FILENAME_MAX
      with _ | hostPath
    · exact .inl ⟨_, rfl, hcopied.free⟩
    · exact .inr ⟨p, hostPath, s₁, rfl, hcopied, rfl⟩

/-- A descriptor that is open, and of no slot. -/
structure HostOpened (s : Proc φ) (kfd : Int) (file : φ) (s' : Proc φ) : Prop where
  kept : Kept s s'
  nonneg : 0 ≤ kfd
  content : s'.fdtable.host.content kfd = some file
  foreign : ∀ x, s'.fdtable.hostOwner x ≠ some kfd
  heap : s'.fdtable.heap = s.fdtable.heap

theorem openFile_some {hostPath : Str} {kfd : Int} (h : Fd.Inv s.fdtable)
    (hopen : s.openFile env a hostPath = some (kfd, s')) :
    ∃ file, env.stat hostPath = some file ∧ HostOpened s kfd file s' := by
  unfold Proc.openFile at hopen
  split at hopen
  · rename_i file _ hstat
    split at hopen
    · rename_i hfresh
      cases hopen
      have hnone := Option.isNone_iff_eq_none.mp hfresh.2
      have hslots := h.outside (a := ⟨none, false, none⟩) (c := .openFile kfd file) hnone
        (.inl ⟨_, _, rfl⟩)
      refine ⟨file, hstat, ⟨hslots, rfl, rfl⟩, hfresh.1, by simp, fun x hx => ?_, rfl⟩
      exact h.host.not_held hnone x hx
    · cases hopen
  · cases hopen

theorem enoent_neg : -LINUX_ENOENT < 0 := by decide

theorem hostErr_neg (e : HostErrno) : hostErr e < 0 := by
  cases e <;> decide

theorem hostCheckdir_eq_zero {hostPath : Str} {file : φ} (hstat : env.stat hostPath = some file) :
    env.hostCheckdir hostPath = 0 ↔ env.isDir file = true := by
  simp only [Env.hostCheckdir, hstat]
  split <;> simp_all [LINUX_ENOTDIR]

/-- What a slot has for a file that a path was opened to. -/
def Env.entry (env : Env φ) (file : φ) (flags : Int) (path : Str) : Entry φ :=
  ⟨file, flags, if env.isDir file then some (inBuffer FILENAME_MAX path) else none⟩

theorem sysOpenat_cases (env : Env φ) (h : Fd.Inv s.fdtable) (a : Answers) (dirfd : Int) (path : Str)
    (flags : Int) :
    ((s.sysOpenat env a dirfd path flags).1 < 0 ∧ Kept s (s.sysOpenat env a dirfd path flags).2) ∨
      ∃ (new : Slot) (file : φ), (s.sysOpenat env a dirfd path flags).1 = (new : Nat) ∧
        env.named s.cwd (inBuffer FILENAME_MAX path) = some file ∧
        Opened s new (env.entry file flags path) (s.sysOpenat env a dirfd path flags).2 := by
  unfold Proc.sysOpenat
  split
  · exact .inl ⟨ebadf_neg, .refl h⟩
  rcases pathcopyresolve_cases env h a path with
    ⟨s₁, heq, hkept⟩ | ⟨p, hostPath, s₁, heq, hcopied, hresolve⟩
  · rw [heq]
    exact .inl ⟨enoent_neg, hkept⟩
  rw [heq]
  simp only
  rcases hopen : s₁.openFile env a hostPath with _ | ⟨kfd, s₂⟩
  · exact .inl ⟨hostErr_neg a.errno, hcopied.free⟩
  obtain ⟨file, hstat, hopened⟩ := openFile_some hcopied.kept.slots.inv hopen
  have hnamed : env.named s.cwd (inBuffer FILENAME_MAX path) = some file := by
    rw [Env.named, hresolve, Option.bind_some, hstat]
  have hkept := hcopied.kept.trans hopened.kept
  have hcontent : s₂.fdtable.heap.content p = some (inBuffer FILENAME_MAX path) := by
    rw [hopened.heap, hcopied.content]
  have hforeign : ∀ slot, s₂.fdtable.t.dirs slot ≠ some p := by
    rw [hopened.kept.slots.t]
    exact hcopied.foreign
  -- what is left of the call puts the descriptor into a slot
  have hplace : ∀ (s₃ : Proc φ) (dir : Option Ptr), Kept s s₃ →
      Admits s₃.fdtable (.fdalloc kfd dir flags) → s₃.fdtable.host.content kfd = some file →
      s₃.fdtable.given file dir flags = env.entry file flags path →
      ((s₃.putFd kfd dir flags).1 < 0 ∧ Kept s (s₃.putFd kfd dir flags).2) ∨
        ∃ (new : Slot) (file : φ), (s₃.putFd kfd dir flags).1 = (new : Nat) ∧
          env.named s.cwd (inBuffer FILENAME_MAX path) = some file ∧
          Opened s new (env.entry file flags path) (s₃.putFd kfd dir flags).2 := by
    intro s₃ dir hkept₃ hadm hfile hgiven
    rcases putFd_cases hkept₃.slots.inv hadm hfile with ⟨hneg, hlast⟩ | ⟨new, hr, hput⟩
    · exact .inl ⟨hneg, hkept₃.trans hlast⟩
    · refine .inr ⟨new, file, hr, hnamed, hput.inv, hput.cwd.trans hkept₃.cwd, ?_, ?_, ?_⟩
      · exact hkept₃.slots.view ▸ hput.free
      · rw [hput.view, hkept₃.slots.view, hgiven]
      · rw [hput.openedAt, hkept₃.openedAt, hkept₃.cwd]
  simp only [hostCheckdir_eq_zero hstat]
  cases hdir : env.isDir file with
  | true =>
      simp only [if_true]
      refine hplace s₂ (some p) hkept ⟨⟨hopened.nonneg, by simp [hopened.content],
        hopened.foreign⟩, ?_⟩ hopened.content ?_
      · rintro q hq
        cases hq
        exact ⟨⟨_, hcontent, inBuffer_length_lt path⟩, hforeign⟩
      · simp [Sys.given, Env.entry, hdir, hcontent]
  | false =>
      simp only [Bool.false_eq_true, if_false]
      have hfree := kept_free hopened.kept.slots.inv hforeign
      refine hplace (s₂.free p) none (hkept.trans hfree) ⟨⟨hopened.nonneg, ?_,
        hopened.foreign⟩, ?_⟩ hopened.content ?_
      · simp [Proc.free, hopened.content]
      · rintro q hq
        cases hq
      · simp [Sys.given, Env.entry, hdir]

/-! The invariant. -/

theorem Inv.opened (h : Inv env s) {new : Slot} {file : φ} {flags : Int}
    (hnamed : env.named s.cwd (inBuffer FILENAME_MAX path) = some file)
    (hopened : Opened s new (env.entry file flags path) s') : Inv env s' := by
  refine ⟨hopened.inv, hopened.cwd ▸ h.cwd, fun slot e he => ?_⟩
  rw [hopened.openedAt]
  rw [hopened.view] at he
  by_cases heq : slot = new
  · rw [heq, Function.update_self] at he
    obtain rfl := Option.some.inj he
    rw [heq, Function.update_self]
    cases hdir : env.isDir file with
    | true =>
        refine ⟨by simp [Env.entry, hdir], fun path' hpath => ?_⟩
        have hsame : inBuffer FILENAME_MAX path = path' := by simpa [Env.entry, hdir] using hpath
        rw [← hsame]
        exact ⟨inBuffer_length_lt path, hnamed⟩
    | false =>
        refine ⟨by simp [Env.entry, hdir], fun path' hpath => ?_⟩
        simp [Env.entry, hdir] at hpath
  · rw [Function.update_of_ne heq] at he
    rw [Function.update_of_ne heq]
    exact h.recorded slot e he

theorem slotOf_neg {fd : Int} (hneg : fd < 0) (slot : Slot) : (slot : Nat) ≠ fd := by
  rintro rfl
  omega

theorem slotOf_nat (slot : Slot) : slotOf (slot : Nat) = some slot := by
  unfold slotOf
  have hlt := slot.isLt
  rw [dif_pos (by omega)]
  rfl

/-- `fddup2` copies a slot with its history. -/
theorem Inv.afterDup (h : Inv env s) (fa : Fd.Answers) (oldfd newfd : Int) :
    Inv env (s.afterDup oldfd (s.fdtable.fddup2 fa oldfd newfd)).2 := by
  rcases fddup2_cases (a := fa) h.fdtable oldfd newfd with hfailed | hdup
  · refine ⟨hfailed.inv, h.cwd, fun slot e he => ?_⟩
    simp only [Proc.afterDup, slotOf_neg hfailed.result slot, if_false]
    exact h.recorded slot e (hfailed.view ▸ he)
  · obtain ⟨old, new, e₀, hold, hr, he₀, hview, -, -⟩ := hdup.entry
    refine ⟨hdup.inv, h.cwd, fun slot e he => ?_⟩
    have he' : Function.update s.fdtable.view new (some e₀) slot = some e := hview ▸ he
    simp only [Proc.afterDup, hr]
    by_cases heq : slot = new
    · rw [heq, Function.update_self] at he'
      obtain rfl := Option.some.inj he'
      rw [heq, if_pos rfl, hold, slotOf_nat, Option.bind_some]
      exact h.recorded old e₀ he₀
    · have hne : ¬((slot : Nat) : Int) = (new : Nat) := fun hval => heq (Fin.ext (by omega))
      rw [Function.update_of_ne heq] at he'
      rw [if_neg hne]
      exact h.recorded slot e he'

theorem Inv.sysClose (h : Inv env s) (fd : Int) : Inv env (s.sysClose fd).2 := by
  unfold Proc.sysClose
  rcases fdclose_cases h.fdtable fd with ⟨heq, -⟩ | ⟨slot, e₀, t, heq, -, -, hinv, hview⟩
  · rw [heq]
    exact h
  · rw [heq]
    refine ⟨hinv, h.cwd, fun slot' e he => h.recorded slot' e ?_⟩
    have he' : Function.update s.fdtable.view slot none slot' = some e := hview ▸ he
    by_cases hslot : slot' = slot
    · rw [hslot, Function.update_self] at he'
      cases he'
    · rwa [Function.update_of_ne hslot] at he'

theorem Inv.setCwd (h : Inv env s) (hcwd : CwdOk cwd) : Inv env { s with cwd := cwd } :=
  ⟨h.fdtable, hcwd, h.recorded⟩

theorem Inv.sysChdir (h : Inv env s) (a : Answers) (path : Str) :
    Inv env (s.sysChdir env a path).2 := by
  unfold Proc.sysChdir
  rcases hcopy : s.pathcopy a path with _ | ⟨p, s₁⟩
  · exact h
  · have hcopied := pathcopy_some h.fdtable hcopy
    have hinv := h.kept hcopied.kept
    have hchdir := @procChdir_chdir _ env _ _ hinv.cwd (inBuffer_length_lt path)
    have hset := hinv.setCwd (hchdir.cwdOk hinv.cwd)
    exact hset.kept (kept_free hset.fdtable hcopied.foreign)

/-- What `sys_fchdir` does with a slot. -/
inductive AtSlot (env : Env φ) (s : Proc φ) (slot : Slot) : Int × Proc φ → Prop
  | closed (hslot : s.fdtable.view slot = none) : AtSlot env s slot (-LINUX_EBADF, s)
  | noPath {e : Entry φ} (hslot : s.fdtable.view slot = some e) (hdir : e.dir = none) :
      AtSlot env s slot (-LINUX_ENOTDIR, s)
  | path {e : Entry φ} {path : Str} {out : Int × Str} (hslot : s.fdtable.view slot = some e)
      (hdir : e.dir = some path) (hchdir : Chdir env s.cwd path out) :
      AtSlot env s slot (out.1, { s with cwd := out.2 })

theorem sysFchdir_none {fd : Int} (hfd : slotOf fd = none) :
    s.sysFchdir env fd = (-LINUX_EBADF, s) := by
  unfold Proc.sysFchdir
  rw [hfd]

theorem sysFchdir_slot {fd : Int} {slot : Slot} (h : Inv env s) (hfd : slotOf fd = some slot) :
    AtSlot env s slot (s.sysFchdir env fd) := by
  unfold Proc.sysFchdir
  rw [hfd]
  simp only
  split
  · rename_i hfree
    exact .closed ((view_eq_none_iff h.fdtable).mpr hfree)
  · rename_i hocc
    have hsome : s.fdtable.view slot ≠ none := fun hnone =>
      hocc ((view_eq_none_iff h.fdtable).mp hnone)
    obtain ⟨e, he⟩ := Option.ne_none_iff_exists'.mp hsome
    obtain ⟨-, -, hdir⟩ := view_some he
    cases hp : s.fdtable.t.dirs slot with
    | none =>
        refine .noPath he ?_
        rw [← hdir, Sys.dirString, hp, Option.bind_none]
    | some p =>
        have hopen := h.fdtable.heap.isOpen (x := some slot) hp
        obtain ⟨path, hpath⟩ := Option.isSome_iff_exists.mp hopen
        have hshort := h.fdtable.short slot p path hp hpath
        simp only [hpath, Option.getD_some, Path.sysFchdir, inBuffer_of_lt hshort]
        refine .path he ?_ (procChdir_chdir h.cwd hshort)
        rw [← hdir, Sys.dirString, hp, Option.bind_some, hpath]

theorem Inv.sysFchdir (h : Inv env s) (fd : Int) : Inv env (s.sysFchdir env fd).2 := by
  cases hfd : slotOf fd with
  | none =>
      rw [sysFchdir_none hfd]
      exact h
  | some slot =>
      have hcall := sysFchdir_slot h hfd
      generalize s.sysFchdir env fd = out at hcall
      rcases hcall with - | - | ⟨-, -, hchdir⟩
      · exact h
      · exact h
      · exact h.setCwd (hchdir.cwdOk h.cwd)

theorem step_inv {c : Answers × Call} (h : Inv env s) (hstep : Step env s c s') : Inv env s' := by
  obtain rfl := hstep
  obtain ⟨a, call⟩ := c
  cases call with
  | openat dirfd path flags =>
      rcases sysOpenat_cases env h.fdtable a dirfd path flags with
        ⟨-, hkept⟩ | ⟨new, file, -, hnamed, hopened⟩
      · exact h.kept hkept
      · exact h.opened hnamed hopened
  | dup oldfd => exact h.afterDup a.dup oldfd (-1)
  | dup3 oldfd newfd flags =>
      simp only [Proc.exec, Proc.sysDup3]
      split
      · exact h
      · exact h.afterDup a.dup oldfd newfd
  | close fd => exact h.sysClose fd
  | chdir path => exact h.sysChdir a path
  | fchdir fd => exact h.sysFchdir fd

/-! The start. -/

theorem fdinit_dirs (t : Sys φ) (sysMinimal sysPassthrough : Bool) (d₀ d₁ d₂ : Option Int) :
    (t.fdinit sysMinimal sysPassthrough d₀ d₁ d₂).t.dirs = t.t.dirs := by
  have hstd : ∀ (t : Sys φ) fd answer, (t.initStd fd answer).t.dirs = t.t.dirs := by
    intro t fd answer
    unfold Sys.initStd
    split
    · rfl
    · rename_i hdup
      obtain ⟨file, -, -, -, rfl⟩ := dup_some hdup
      rfl
  unfold Sys.fdinit
  cases sysMinimal with
  | true => rfl
  | false =>
      simp only [Bool.false_eq_true, if_false]
      rw [hstd, hstd, hstd]

theorem Start.inv (env : Env φ) (h : Start s) : Inv env s := by
  refine ⟨start_inv h.fdtable, .inl h.cwd, fun slot e he => ?_⟩
  obtain ⟨t, sysMinimal, d₀, d₁, d₂, hblank, hinit⟩ := h.fdtable
  obtain ⟨-, -, hdir⟩ := view_some he
  rw [h.openedAt, Recorded, ← hdir, Sys.dirString, hinit, fdinit_dirs, hblank.dirs, Option.bind_none]

/-! When `sys_fchdir` returns. -/

theorem Inv.returns_iff (h : Inv env s) (fd : Int) : Returns env s fd ↔ PathStands env s fd := by
  constructor
  · intro hret slot e path hfd he hpath
    obtain ⟨hdir, hsuccess⟩ := hret slot e hfd he
    have hrecorded := h.recorded slot e he
    rcases hopened : s.openedAt slot with _ | cwd
    · rw [hopened, Recorded, hpath] at hrecorded
      cases hrecorded
    · rw [hopened] at hrecorded hsuccess
      obtain ⟨-, hnamed⟩ := hrecorded.2 path hpath
      have hzero := hsuccess (hrecorded.1.mpr (by simp [hpath])) rfl
      have hdenotes := hdir hzero
      have hcall := sysFchdir_slot h hfd
      generalize s.sysFchdir env fd = out at hcall hzero hdenotes
      rcases hcall with hnone | ⟨he', hnone⟩ | ⟨he', hpath', hchdir⟩
      · cases hzero
      · cases hzero
      · obtain rfl := Option.some.inj (he.symm.trans he')
        obtain rfl := Option.some.inj (hpath.symm.trans hpath')
        rcases hchdir with ⟨-, -⟩ | ⟨-, -, hneg⟩ | ⟨hstart, -, -⟩
        · cases hzero
        · exact absurd hzero (by simp only; omega)
        · rw [denotes_absPath (isAbsolute_absPath h.cwd hstart)] at hdenotes
          rcases hstart with habs | hne
          · exact .inl habs
          · exact .inr ⟨hne, cwd, rfl, hdenotes.trans hnamed.symm⟩
  · intro hstands slot e hfd he
    have hrecorded := h.recorded slot e he
    have hcall := sysFchdir_slot h hfd
    generalize s.sysFchdir env fd = out at hcall
    rcases hcall with hnone | ⟨he', hnone⟩ | ⟨he', hpath, hchdir⟩
    · rw [he] at hnone
      cases hnone
    · obtain rfl := Option.some.inj (he.symm.trans he')
      refine ⟨fun hzero => (by cases hzero), fun hdir hsome => ?_⟩
      obtain ⟨cwd, hcwd⟩ := Option.isSome_iff_exists.mp hsome
      rw [hcwd] at hrecorded
      have hkept := hrecorded.1.mp hdir
      rw [hnone] at hkept
      cases hkept
    · obtain rfl := Option.some.inj (he.symm.trans he')
      rename_i path out
      -- the path names the open file from here, too
      obtain ⟨hstart, hfile, hdir⟩ : (isAbsolute path = true ∨ s.cwd ≠ []) ∧
          env.named s.cwd path = some e.file ∧ env.isDir e.file = true := by
        rcases hopened : s.openedAt slot with _ | cwd
        · rw [hopened, Recorded, hpath] at hrecorded
          cases hrecorded
        · rw [hopened] at hrecorded
          have hisDir := hrecorded.1.mpr (by simp [hpath])
          obtain ⟨-, hnamed⟩ := hrecorded.2 path hpath
          rcases hstands slot e path hfd he hpath with habs | ⟨hne, cwd', hcwd', hsame⟩
          · exact ⟨.inl habs, (named_absolute habs).trans hnamed, hisDir⟩
          · rw [hopened] at hcwd'
            obtain rfl := Option.some.inj hcwd'
            exact ⟨.inr hne, hsame.trans hnamed, hisDir⟩
      rcases hchdir with ⟨hrel, hnil⟩ | ⟨-, hrefused, -⟩ | ⟨-, -, -⟩
      · rcases hstart with habs | hne
        · rw [hrel] at habs
          cases habs
        · exact absurd hnil hne
      · have hfalse := hrefused e.file hfile
        rw [hdir] at hfalse
        cases hfalse
      · refine ⟨fun _ => ?_, fun _ _ => rfl⟩
        exact (denotes_absPath (isAbsolute_absPath h.cwd hstart)).trans hfile

/-- In every state that is reached, `sys_fchdir` gets to the directory that is open if and
only if the path that is kept for it stands. -/
theorem fchdir_returns_iff {s₀ : Proc φ} (hstart : Start s₀)
    (hrun : Reaches (Step env) anyStep s₀ s) (fd : Int) :
    Returns env s fd ↔ PathStands env s fd :=
  (hrun.invariant (hstart.inv env) fun _ _ _ h _ hstep => step_inv h hstep).returns_iff fd

def hostDirs : List Str :=
  ["/host/a".toList, "/host/a/sub".toList, "/host/b".toList, "/host/b/sub".toList]

/-- Its files are directories, each with its path. -/
def hostEnv : Env Str :=
  ⟨some ["/=/host".toList], fun path => if path ∈ hostDirs then some path else none, fun _ => true⟩

def noFiles : Sys Str := ⟨⟨fun _ => 0, fun _ => none, fun _ => 0, false⟩, .empty, .empty, fun _ => -1⟩

def started : Proc Str := ⟨noFiles.fdinit true false none none none, [], fun _ => none⟩

theorem started_start : Start started :=
  ⟨⟨noFiles, true, none, none, none, ⟨keeps_empty, keeps_empty, fun _ => rfl, fun _ => rfl, rfl⟩,
    rfl⟩, rfl, fun _ => rfl⟩

/-- The host gives out `n`. -/
def gives (n : Nat) : Answers := ⟨some n, some n, .other, ⟨none, false, none⟩⟩

/-- A process that opens a directory in `/a` and changes to `/b`. -/
def moved (path : Str) : Proc Str :=
  let s := (started.exec hostEnv (gives 1) (.chdir "/a".toList)).2
  let s := (s.exec hostEnv (gives 2) (.openat LINUX_AT_FDCWD path 0)).2
  (s.exec hostEnv (gives 3) (.chdir "/b".toList)).2

theorem moved_reached (path : Str) : Reaches (Step hostEnv) anyStep started (moved path) :=
  Reaches.tail (Reaches.tail (Reaches.tail (Reaches.refl _) trivial
    (l := (gives 1, .chdir "/a".toList)) rfl) trivial
    (l := (gives 2, .openat LINUX_AT_FDCWD path 0)) rfl) trivial
    (l := (gives 3, .chdir "/b".toList)) rfl

theorem moved_absolute_returns : Returns hostEnv (moved "/a/sub".toList) 0 := by
  refine (fchdir_returns_iff started_start (moved_reached "/a/sub".toList) 0).mpr ?_
  intro slot e path hfd he hpath
  obtain rfl : (0 : Slot) = slot := Option.some.inj hfd
  obtain ⟨-, -, hdir⟩ := view_some he
  have hkept : (moved "/a/sub".toList).fdtable.dirString 0 = some "/a/sub".toList := by
    decide +kernel
  obtain rfl := Option.some.inj ((hkept.symm.trans hdir).trans hpath)
  exact .inl rfl

/-- It gets to the directory of that name in `/b`. -/
theorem moved_relative_strays :
    Reaches (Step hostEnv) anyStep started (moved "sub".toList) ∧
      (moved "sub".toList).fdtable.file 0 = some "/host/a/sub".toList ∧
      ((moved "sub".toList).sysFchdir hostEnv 0).1 = 0 ∧
      hostEnv.denotes ((moved "sub".toList).sysFchdir hostEnv 0).2.cwd =
        some "/host/b/sub".toList ∧
      ¬Returns hostEnv (moved "sub".toList) 0 := by
  have hfile : (moved "sub".toList).fdtable.file 0 = some "/host/a/sub".toList := by decide +kernel
  have hzero : ((moved "sub".toList).sysFchdir hostEnv 0).1 = 0 := by decide +kernel
  have hdenotes : hostEnv.denotes ((moved "sub".toList).sysFchdir hostEnv 0).2.cwd =
      some "/host/b/sub".toList := by decide +kernel
  refine ⟨moved_reached _, hfile, hzero, hdenotes, fun hret => ?_⟩
  have hview : (moved "sub".toList).fdtable.view 0 ≠ none := by
    rw [Sys.view, hfile]
    simp
  obtain ⟨e, he⟩ := Option.ne_none_iff_exists'.mp hview
  obtain ⟨hfile', -, -⟩ := view_some he
  have hsame := hdenotes.symm.trans (((hret 0 e rfl he).1 hzero).trans (hfile'.symm.trans hfile))
  exact absurd hsame (by decide)

end LfiRuntime.Fchdir
