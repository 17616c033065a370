import LfiRuntime.Linux.SysProcess

/-!
System calls that get a pointer which does not fit.
-/

namespace LfiRuntime.Syscalls

open LfiRuntime.Align
open LfiRuntime.Box
open LfiRuntime.ByteString
open LfiRuntime.Fd
open LfiRuntime.Futex
open LfiRuntime.PagedMemory
open LfiRuntime.Programs
open LfiRuntime.Programs.Program
open LfiRuntime.Vectored

/-- The operation copies a path, or holds a descriptor meanwhile: nothing is done. -/
def SysOp.Harmless : SysOp β → Prop
  | .strncpy _ _ => True
  | .plain (.malloc _) | .plain (.pathResolve _) => True
  | .plain (.fdacquire _) | .plain (.fdrelease _) => True
  | _ => False

/-- The call is refused, and has done nothing. -/
abbrev Refused (p : Sys Int) : Prop := p.Meets SysOp.Harmless fun r => r < 0

section

variable {env : Env} {t : LFILinuxThread} {p n align : Nat} {sysno : BitVec 64}
  {a : Fin 6 → BitVec 64}

@[simp] theorem harmless_strncpy : SysOp.Harmless (.strncpy p n) := trivial

@[simp] theorem harmless_malloc : SysOp.Harmless (.plain (.malloc n)) := trivial

@[simp] theorem harmless_pathResolve (path : Bytes) :
    SysOp.Harmless (.plain (.pathResolve path)) := trivial

@[simp] theorem harmless_fdacquire (fd : Int) : SysOp.Harmless (.plain (.fdacquire fd)) := trivial

@[simp] theorem harmless_fdrelease (fd : Int) : SysOp.Harmless (.plain (.fdrelease fd)) := trivial

@[simp] theorem EINVAL_pos : 0 < LINUX_EINVAL := by decide

@[simp] theorem EBADF_pos : 0 < LINUX_EBADF := by decide

@[simp] theorem ENOENT_pos : 0 < LINUX_ENOENT := by decide

@[simp] theorem EFAULT_pos : 0 < LINUX_EFAULT := by decide

@[simp] theorem ENOSYS_pos : 0 < LINUX_ENOSYS := by decide

@[simp] theorem EISDIR_pos : 0 < LINUX_EISDIR := by decide

@[simp] theorem EACCES_pos : 0 < LINUX_EACCES := by decide

theorem unfit_nonempty : (∃ b ∈ nonempty p n align, b.ok env = false) ↔
    n ≠ 0 ∧ bufcheck env p n align = false := by
  rw [nonempty]
  split <;> simp_all [Need.ok]

theorem refused_sysRead (fd : Int) (hn : n ≠ 0) (h : bufcheck env p n 1 = false) :
    Refused (sysRead env fd p n) := by
  simp [sysRead, hn, h]

theorem refused_sysWrite (fd : Int) (hn : n ≠ 0) (h : bufcheck env p n 1 = false) :
    Refused (sysWrite env fd p n) := by
  simp [sysWrite, hn, h]

theorem refused_sysVec (io : Nat → Nat → Sys Int) (hn : n * 16 ≠ 0)
    (h : bufcheck env p (n * 16) 8 = false) : Refused (sysVec env io p n) := by
  have hcount : n ≠ 0 := by
    rintro rfl
    exact hn rfl
  simp [sysVec, hcount, h]

theorem refused_sysPio (call : Int → BufCall) (fd : Int) (hn : n ≠ 0)
    (h : bufcheck env p n 1 = false) : Refused (sysPio env call fd p n) := by
  simp [sysPio, hn, h]

theorem refused_sysRenameat {oldp newp : Nat} (olddir newdir : Int)
    (h : ptrcheck env oldp = false ∨ ptrcheck env newp = false) :
    Refused (sysRenameat env olddir oldp newdir newp) := by
  rcases h with h | h <;> simp [sysRenameat, h]

theorem refused_sysReadlinkat {pathp : Nat} (dirfd : Int)
    (h : ptrcheck env pathp = false ∨ bufcheck env p n 1 = false) :
    Refused (sysReadlinkat env dirfd pathp p n) := by
  rcases h with h | h <;> simp [sysReadlinkat, h]

theorem refused_sysNewfstatat {pathp : Nat} (dirfd : Int) (flags : BitVec 32)
    (h : bufcheck env p (statSize env.arch) 8 = false ∨
      flags &&& LINUX_AT_EMPTY_PATH = 0 ∧ ptrcheck env pathp = false) :
    Refused (sysNewfstatat env dirfd pathp p flags) := by
  rcases h with h | ⟨hflags, h⟩
  · simp [sysNewfstatat, h]
  · simp [sysNewfstatat, hflags, h]

theorem refused_sysFutex (op val : BitVec 32) {timeoutp uaddr2p : Nat}
    (h : bufcheck env p 4 4 = false ∨
      op &&& ~~~futexPrivateFlag = 0 ∧ timeoutp ≠ 0 ∧ bufcheck env timeoutp 16 8 = false ∨
      op &&& ~~~futexPrivateFlag = 3 ∧ bufcheck env uaddr2p 4 4 = false) :
    Refused (sysFutex env p op val timeoutp uaddr2p) := by
  simp only [sysFutex, futexWait]
  rcases h with h | ⟨hop, hne, h⟩ | ⟨hop, h⟩
  · simp [h]
  · simp [hop, hne, h]
  · simp [hop, h]

theorem refused_spawn (flags : BitVec 64) {stack ptidp ctidp : Nat} (tls : Nat)
    (h : ptrcheck env stack = false ∨ bufcheck env ctidp 4 4 = false ∨
      bufcheck env ptidp 4 4 = false) : Refused (spawn env flags stack ptidp ctidp tls) := by
  rcases h with h | h | h <;> simp [spawn, h]

theorem refused_handleAlways {c : Sysno} {handler : Sys Int}
    (hbad : ∃ b ∈ needs env a c, b.ok env = false)
    (hhandler : handleAlways env t a c = some handler) : Refused handler := by
  cases c <;> simp only [handleAlways, Option.some.injEq, reduceCtorEq] at hhandler
  case brk =>
    subst hhandler
    simp only [needs] at hbad
    split at hbad <;> simp_all [Need.ok, sysBrk]
  case mmap =>
    subst hhandler
    simp only [needs] at hbad
    split at hbad <;> simp_all [Need.ok, sysMmap]
  case mprotect =>
    subst hhandler
    simp_all [needs, Need.ok, sysMprotect]
  case munmap =>
    subst hhandler
    simp_all [needs, Need.ok, sysMunmap]
  case clone =>
    cases harch : env.arch <;> simp only [harch, Option.some.injEq] at hhandler <;>
      subst hhandler <;> simp only [sysClone, meets_ite, meets_pure, Bool.not_eq_true] <;>
      refine ⟨fun _ => by simp, fun _ => refused_spawn _ _ ?_⟩ <;>
      simpa [needs, Need.ok, cloneArgs, harch] using hbad
  all_goals simp [needs] at hbad

theorem refused_handle {c : Sysno} (hbad : ∃ b ∈ needs env a c, b.ok env = false)
    (hnone : handleAlways env t a c = none) : Refused (handle env t a c) := by
  cases c <;> simp only [needs, unfit_nonempty] at hbad
  case write => exact refused_sysWrite _ hbad.1 hbad.2
  case writev => exact refused_sysVec _ hbad.1 hbad.2
  case read => exact refused_sysRead _ hbad.1 hbad.2
  case readv => exact refused_sysVec _ hbad.1 hbad.2
  case pread64 => exact refused_sysPio (.pread · (a 3).toInt) _ hbad.1 hbad.2
  case pwrite64 => exact refused_sysPio (.pwrite · (a 3).toInt) _ hbad.1 hbad.2
  case getcwd => simp [handle, sysGetcwd, hbad]
  case renameat => exact refused_sysRenameat _ _ (by simpa [Need.ok] using hbad)
  case renameat2 =>
    have hrefused := refused_sysRenameat (int (a 0)) (int (a 2)) (by simpa [Need.ok] using hbad)
    simpa [handle, sysRenameat2] using fun _ => hrefused
  case rename => exact refused_sysRenameat _ _ (by simpa [Need.ok] using hbad)
  case readlinkat => exact refused_sysReadlinkat _ (by simpa [Need.ok] using hbad)
  case readlink => exact refused_sysReadlinkat _ (by simpa [Need.ok] using hbad)
  case newfstatat =>
    apply refused_sysNewfstatat
    split at hbad <;> simp_all [Need.ok]
  case fstat => exact refused_sysNewfstatat _ _ (.inl (by simpa [Need.ok] using hbad))
  case stat => exact refused_sysNewfstatat _ _ (by simpa [Need.ok] using hbad)
  case lstat => exact refused_sysNewfstatat _ _ (by simpa [Need.ok] using hbad)
  case futex =>
    apply refused_sysFutex
    split at hbad
    · split at hbad <;> simp_all [Need.ok]
    · split at hbad <;> simp_all [Need.ok]
  case clockGettime =>
    simp only [handle, sysClockGettime]
    cases hostClockid (int (a 0)) <;> simp_all [Need.ok]
  case clone => cases harch : env.arch <;> simp [handleAlways, harch] at hnone
  all_goals
    simp_all [handleAlways, Need.ok, handle, sysOpenat, sysMkdirat, sysUnlinkat, sysFaccessat,
      sysChmod, sysTruncate, onPath, sysChdir, sysSetTidAddress, sysSchedGetaffinity,
      sysGetdents64, sysNanosleep, sysGetrlimit, sysGetrandom, sysIoctl, sysPrctl, prSetName,
      sysUname, sysSysinfo]

/-- A system call with a pointer that does not fit is refused, whatever else it asks for:
its result is negative, and it has read no more than a path, changed nothing and started
nothing. -/
theorem refused_of_unfit {c : Sysno} (hpass : env.sysPassthrough = false)
    (hc : sysnoOf env.arch sysno = some c) (hbad : ∃ b ∈ needs env a c, b.ok env = false) :
    Refused (dispatch env t sysno a) := by
  rw [dispatch, hc, hpass]
  simp only [Option.bind_some]
  cases hhandler : handleAlways env t a c with
  | some handler => exact refused_handleAlways hbad hhandler
  | none => exact refused_handle hbad hhandler

/-- A `write` of 8 bytes at the address 0. -/
theorem write_refused : Refused (dispatch smallEnv firstThread 1 (args [1, 0, 8])) :=
  refused_of_unfit (c := .write) rfl rfl ⟨.buf 0 8 1, by decide, by decide⟩

end

end LfiRuntime.Syscalls
