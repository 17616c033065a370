import LfiRuntime.Lib.Runs
import LfiRuntime.Linux.SysConfined

/-!
Runs of a process: its threads make system calls, and the operations of the handlers
interleave in any order.
-/

namespace LfiRuntime.Syscalls

open LfiRuntime.ByteString
open LfiRuntime.Futex
open LfiRuntime.PagedMemory
open LfiRuntime.Programs
open LfiRuntime.Programs.Program
open LfiRuntime.Runs

/-- The pointer that is kept for the end of the thread is one that was checked. -/
def TidOk (env : Env) (t : LFILinuxThread) : Prop := t.ctidp ≠ 0 → bufcheck env t.ctidp 4 4

section

variable {env : Env} {F : Fatal → Prop} {t : LFILinuxThread} {p n : Nat}

theorem within_futex (c : Futex.HostCall) :
    SysOp.Within env F (.futex c) ↔
      ∀ s ∈ futexSpans c, env.box.min ≤ s.1 ∧ s.1 + s.2 ≤ env.box.max := Iff.rfl

theorem confined_futexWait {uaddr : Nat} (hbuf : bufcheck env uaddr 4 4) (op val : BitVec 32)
    (timeoutp : Nat) : Confined env F (futexWait env uaddr op val timeoutp) := by
  rw [bufcheck_iff] at hbuf
  have hcall : ∀ timeout, SysOp.Within env F (.futex (.wait uaddr op val.toNat timeout)) := by
    intro timeout
    simp [within_futex, futexSpans, hbuf]
  simp only [futexWait, meets_ite, meets_bind, meets_perform, meets_pure, hcall, Bool.not_eq_true',
    Bool.not_eq_false, implies_true, true_and, and_true]
  intro _ htime
  exact (confined_loadTime htime).mono (fun _ h => h) fun _ _ => trivial

theorem confined_sysFutex (op val : BitVec 32) (timeoutp uaddr2p : Nat) :
    Confined env F (sysFutex env p op val timeoutp uaddr2p) := by
  simp only [sysFutex, meets_ite, meets_perform, meets_pure, Bool.not_eq_true', Bool.not_eq_false,
    implies_true, true_and, and_true]
  intro _ hbuf
  refine ⟨fun _ => confined_futexWait hbuf op val timeoutp, fun _ => ?_⟩
  rw [bufcheck_iff] at hbuf
  simp +contextual [within_futex, futexSpans, hbuf, bufcheck_iff]

theorem ptrhost_of_bufcheck (hbuf : bufcheck env p 4 4) : ptrhost env p = p := by
  rw [bufcheck_iff] at hbuf
  rw [ptrhost, if_pos]
  rw [ptrcheck_iff]
  omega

theorem confined_clearctid (h : TidOk env t) : Confined env F (clearctid env t) := by
  simp only [clearctid, meets_ite, meets_bind, meets_perform, meets_pure]
  refine ⟨fun hne => ?_, fun _ => trivial⟩
  have hbuf := h hne
  rw [ptrhost_of_bufcheck hbuf]
  simp only [within_store, length_leBytes]
  refine ⟨fits_of_bufcheck hbuf, fun _ => ?_⟩
  exact (confined_sysFutex ..).mono (fun _ h => h) fun _ _ => trivial

theorem confined_lfiCtxExit (code : Int) (hF : t.inCtxRun = false → F .abort) :
    Confined env F (lfiCtxExit t code : Sys α) := by
  simpa [lfiCtxExit] using hF

/-- `abort` is for a thread that has paused or exited, or that `lfi_ctx_run` does not run. -/
theorem confined_threadExit (h : TidOk env t) (kind : LFIExitKind) (code : Int)
    (hF : t.owner ≠ .host → t.paused ∨ t.exited ∨ t.inCtxRun = false → F .abort) :
    Confined env F (threadExit env t kind code : Sys α) := by
  have hclear : (clearctid env t).Meets (SysOp.Within env F) fun _ => True :=
    confined_clearctid h
  by_cases howner : t.owner = .host
  · simp [threadExit, howner, hclear]
  have hexit : (clearctid env t).Meets (SysOp.Within env F) fun _ =>
      (lfiCtxExit t code : Sys α).Meets (SysOp.Within env F) fun _ => True :=
    hclear.mono (fun _ h => h) fun _ _ =>
      confined_lfiCtxExit code fun hrun => hF howner (.inr (.inr hrun))
  simp only [threadExit, howner, meets_bind, meets_ite, meets_plain, meets_noreturn, within_plain,
    within_fatal, true_and, if_false]
  have hends : (t.paused = true → F .abort) ∧ (t.exited = true → F .abort) :=
    ⟨fun hpaused => hF howner (.inl hpaused), fun hexited => hF howner (.inr (.inl hexited))⟩
  grind

theorem confined_sysCheckpoint (h : TidOk env t)
    (hF : t.owner ≠ .host → t.paused ∨ t.exited ∨ t.inCtxRun = false → F .abort) :
    Confined env F (sysCheckpoint env t) := by
  simp only [sysCheckpoint, meets_bind, meets_plain, within_plain, true_and]
  rintro (_ | code)
  · trivial
  · exact confined_threadExit h _ _ hF

theorem confined_sysLfiPause (hF : t.paused ∨ t.inCtxRun = false → F .abort) :
    Confined env F (sysLfiPause t) := by
  simp only [sysLfiPause, meets_ite, meets_bind, meets_plain, meets_noreturn, within_plain,
    within_fatal, true_and]
  exact ⟨fun hpaused => hF (.inl hpaused),
    fun _ _ => confined_lfiCtxExit 0 fun hend => hF (.inr hend)⟩

theorem confined_spawnOn (attach : Bool) (new : ThreadId) (hF : F .assertion) :
    Confined env F (spawnOn attach new) := by
  cases attach with
  | false => simp [spawnOn, spawnThread]
  | true => simp [spawnOn, spawnAttached, hF]

/-- The assertion is for a new thread that exits on the host thread of its maker. -/
theorem confined_spawn {flags : BitVec 64} {stack ptidp ctidp tls : Nat}
    (hF : Spawns env flags stack ptidp ctidp → F .assertion) :
    Confined env F (spawn env flags stack ptidp ctidp tls) := by
  simp only [spawn, meets_ite, meets_bind, meets_plain, meets_pure, within_plain, Bool.not_eq_true,
    Bool.not_eq_true', Bool.not_eq_false, implies_true, true_and]
  intro hflags hstack hctid hptid attach
  rintro (_ | ⟨new, tid⟩)
  · trivial
  simp only [meets_bind, meets_onFlag, meets_plain, meets_ite, meets_pure, within_plain,
    ptrhost_of_bufcheck hctid, ptrhost_of_bufcheck hptid, within_store, length_leBytes]
  refine ⟨fun _ => trivial, fun _ => hctid, fun _ => fits_of_bufcheck hctid, trivial, fun _ => ?_⟩
  apply (confined_spawnOn attach new (hF ⟨hflags, hstack, hctid, hptid⟩)).mono fun _ h => h
  exact fun _ _ => ⟨fun _ => trivial, fun _ => ⟨fun _ => fits_of_bufcheck hptid, trivial⟩⟩

theorem confined_procMapany (size : Nat) (prot flags : BitVec 32) (fd off : Int)
    {next : Nat → Sys Int} (hnext : ∀ addr, Confined env F (next addr)) :
    Confined env F (procMapany size prot flags fd off next) := by
  simp only [procMapany, meets_withFd, meets_ite, meets_bind, meets_plain, meets_pure, within_plain,
    implies_true, true_and, and_true]
  rintro f - (_ | addr)
  · trivial
  · exact hnext addr

theorem confined_procMapat (start size : Nat) (prot flags : BitVec 32) (fd off : Int) :
    Confined env F (procMapat start size prot flags fd off) := by
  simp only [procMapat, meets_withFd, meets_ite, meets_bind, meets_plain, meets_pure, within_plain,
    implies_true, true_and, and_true]
  rintro f - (_ | addr) <;> trivial

theorem confined_sysMmap (length : Nat) (prot flags : BitVec 32) (fd off : Int) :
    Confined env F (sysMmap env p length prot flags fd off) := by
  simp only [sysMmap, meets_ite, meets_bind, meets_pure, implies_true, true_and, and_true]
  intro _ _ _ _
  refine ⟨fun _ _ => ?_, fun _ => confined_procMapany _ _ _ _ _ fun _ => trivial⟩
  exact (confined_procMapat ..).mono (fun _ h => h) fun _ _ => trivial

/-! The table. -/

variable {sysno : BitVec 64} {a : Fin 6 → BitVec 64}

theorem confined_handleAlways (h : TidOk env t) {s : Sysno} {handler : Sys Int}
    (hs : sysnoOf env.arch sysno = some s) (hF : ∀ f, MayEnd env t sysno a f → F f)
    (hhandler : handleAlways env t a s = some handler) : Confined env F handler := by
  have hexit : t.owner ≠ .host → t.paused ∨ t.exited ∨ t.inCtxRun = false → F .abort :=
    fun howner hend => hF .abort (.inl ⟨howner, hend⟩)
  cases s <;> simp only [handleAlways, Option.some.injEq, reduceCtorEq] at hhandler
  case archPrctl =>
    subst hhandler
    cases harch : env.arch <;> simp [sysArchPrctl, harch]
  case brk =>
    subst hhandler
    simp [sysBrk]
  case mmap =>
    subst hhandler
    exact confined_sysMmap ..
  case mprotect =>
    subst hhandler
    simp [sysMprotect]
  case munmap =>
    subst hhandler
    simp [sysMunmap]
  case clone =>
    cases harch : env.arch <;> simp only [harch, Option.some.injEq] at hhandler <;>
      subst hhandler <;> simp only [sysClone, meets_ite, meets_pure, Bool.not_eq_true] <;>
      refine ⟨fun _ => trivial, fun hfork => confined_spawn fun hspawn => hF .assertion (.inr ?_)⟩ <;>
      exact ⟨hs, by simpa using hfork, by simpa only [harch, cloneArgs] using hspawn⟩
  case exitGroup =>
    subst hhandler
    exact confined_threadExit h _ _ hexit
  case exit =>
    subst hhandler
    exact confined_threadExit h _ _ hexit
  case pause =>
    subst hhandler
    exact confined_sysLfiPause fun hend => hF .abort (.inr ⟨hs, hend⟩)

theorem confined_handle {s : Sysno} (hs : sysnoOf env.arch sysno = some s)
    (hF : ∀ f, MayEnd env t sysno a f → F f) : Confined env F (handle env t a s) := by
  have hstat : ∀ {dirfd pathp statbufp} {flags : BitVec 32},
      flags = 0 ∨ flags = LINUX_AT_EMPTY_PATH →
        Confined env F (sysNewfstatat env dirfd pathp statbufp flags) := by
    intro dirfd pathp statbufp flags hflags
    apply confined_sysNewfstatat
    rintro ⟨-, -, -, hempty, hne⟩
    rcases hflags with rfl | rfl
    · exact absurd rfl hne
    · exact absurd hempty (by decide)
  cases s <;> simp only [handle]
  case write => exact confined_sysWrite _
  case writev => exact confined_sysVec fun _ _ => confined_sysWrite _
  case read => exact confined_sysRead _
  case readv => exact confined_sysVec fun _ _ => confined_sysRead _
  case openat => exact confined_sysOpenat ..
  case «open» => exact confined_sysOpenat ..
  case close => simp [sysClose]
  case gettid => simp [sysGettid]
  case futex => exact confined_sysFutex ..
  case setTidAddress => simp +contextual [sysSetTidAddress, SysOp.Within]
  case schedGetaffinity => exact confined_sysSchedGetaffinity
  case schedYield => simp [sysSchedYield]
  case lseek => exact confined_onFd ..
  case pread64 => exact confined_sysPio ..
  case pwrite64 => exact confined_sysPio ..
  case getdents64 => exact confined_sysGetdents64 _
  case newfstatat =>
    exact confined_sysNewfstatat fun hodd => hF .assertion (.inl ⟨hs, hodd⟩)
  case fstat => exact hstat (.inr rfl)
  case stat => exact hstat (.inl rfl)
  case lstat => exact hstat (.inl rfl)
  case fchmod => exact confined_onFd ..
  case chmod => exact confined_onPath _
  case truncate => exact confined_onPath _
  case ftruncate => exact confined_onFd ..
  case fchown => exact confined_onFd ..
  case fsync => exact confined_onFd ..
  case mkdirat => simpa [sysMkdirat] using fun _ => confined_onPath _
  case mkdir => simpa [sysMkdirat] using fun _ => confined_onPath _
  case unlinkat => simpa [sysUnlinkat] using fun _ _ => confined_onPath _
  case unlink => simpa [sysUnlinkat] using fun _ => confined_onPath _
  case renameat => exact confined_sysRenameat ..
  case renameat2 => simpa [sysRenameat2] using fun _ => confined_sysRenameat _ _
  case rename => exact confined_sysRenameat ..
  case faccessat => simpa [sysFaccessat] using fun _ => confined_onPath _
  case access => simpa [sysFaccessat] using fun _ => confined_onPath _
  case readlinkat => exact confined_sysReadlinkat ..
  case readlink => exact confined_sysReadlinkat ..
  case dup => simp [sysDup]
  case dup2 => simp [sysDup3]
  case dup3 => simp [sysDup3]
  case chdir => exact confined_sysChdir
  case fchdir => exact confined_sysFchdir _
  case getcwd => exact confined_sysGetcwd
  case nanosleep => exact confined_sysNanosleep
  case clockGettime => exact confined_sysClockGettime _
  case time => exact confined_sysTime
  case getrandom => exact confined_sysGetrandom _
  case ioctl => exact confined_sysIoctl ..
  case prctl => exact confined_sysPrctl _
  case uname => exact confined_sysUname
  case sysinfo => exact confined_sysSysinfo
  case getrlimit => exact confined_sysGetrlimit _
  all_goals simp [sysNosys, sysIgnore]

theorem confined_syshandle (h : TidOk env t) (hpass : env.sysPassthrough = false)
    (hF : ∀ f, MayEnd env t sysno a f → F f) : Confined env F (syshandle env t sysno a) := by
  rw [Confined, syshandle, meets_bind]
  apply (confined_sysCheckpoint h fun howner hend => hF .abort (.inl ⟨howner, hend⟩)).mono
    fun _ h => h
  intro _ _
  rw [dispatch, hpass]
  cases hs : sysnoOf env.arch sysno with
  | none => simpa using fun hexit => hF .exit ⟨hs, hexit⟩
  | some s =>
      simp only [Option.bind_some]
      cases hhandler : handleAlways env t a s with
      | some handler => exact confined_handleAlways h hs hF hhandler
      | none => exact confined_handle hs hF

end

end LfiRuntime.Syscalls
