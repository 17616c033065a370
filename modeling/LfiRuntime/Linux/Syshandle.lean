import LfiRuntime.Linux.SysHandlers

/-!
The handlers for memory and threads, and `syshandle`, the table of all of them
(`linux/sys.c`), with the numbers of `arch_sys.h`.
-/

namespace LfiRuntime.Syscalls

open LfiRuntime.Align
open LfiRuntime.Box
open LfiRuntime.ByteString
open LfiRuntime.Fd
open LfiRuntime.Futex
open LfiRuntime.PagedMemory
open LfiRuntime.Programs
open LfiRuntime.Programs.Program

variable (env : Env)

/-! Memory. -/

/-- `sys_brk`, with what it does under `lk_brk` in one operation. -/
def sysBrk (addr : Nat) : Sys Int := do
  if addr ≠ 0 ∧ !ptrcheck env addr then return -1
  plain (.brk addr)

/-- `proc_mapany`. -/
def procMapany (size : Nat) (prot flags : BitVec 32) (fd off : Int) (next : Nat → Sys Int) :
    Sys Int :=
  withFd fd fun f => do
    if fd ≥ 0 ∧ f.kfd = -1 then return -LINUX_EBADF
    match ← plain (.boxMapany size prot flags f.kfd off) with
    | none => return -LINUX_EINVAL
    | some addr => next addr

/-- `proc_mapat`. -/
def procMapat (start size : Nat) (prot flags : BitVec 32) (fd off : Int) : Sys Int :=
  withFd fd fun f => do
    if fd ≥ 0 ∧ f.kfd = -1 then return -LINUX_EBADF
    match ← plain (.boxMapat start size prot flags f.kfd off) with
    | none => return -LINUX_EINVAL
    | some _ => return 0

def LINUX_MAP_DENYWRITE : BitVec 32 := 2048
def LINUX_MAP_NORESERVE : BitVec 32 := 16384

def illegalMask : BitVec 32 :=
  ~~~LFI_MAP_ANONYMOUS &&& ~~~LFI_MAP_PRIVATE &&& ~~~LINUX_MAP_NORESERVE &&&
    ~~~LINUX_MAP_DENYWRITE &&& ~~~LFI_MAP_FIXED

def sysMmap (addrp length : Nat) (prot flags : BitVec 32) (fd off : Int) : Sys Int := do
  if length = 0 then return -LINUX_EINVAL
  if length > 2 ^ 64 - 1 - (env.pagesize - 1) then return -LINUX_EINVAL
  let length := ceilp length env.pagesize
  if has flags illegalMask then return -LINUX_EINVAL
  if has prot LFI_PROT_EXEC ∧ !has flags LFI_MAP_ANONYMOUS then return -LINUX_EACCES
  if has flags LFI_MAP_FIXED then
    let addrp := truncp addrp env.pagesize
    if !ptrcheck env addrp then return -1
    let r ← procMapat addrp length prot flags fd off
    if r < 0 then return r
    return addrp
  else
    procMapany length prot flags fd off fun addr => return addr

def sysMprotect (addrp length : Nat) (prot : BitVec 32) : Sys Int := do
  if length = 0 then return -LINUX_EINVAL
  if !ptrcheck env addrp then return -1
  plain (.boxMprotect addrp (ceilp length env.pagesize) prot)

def sysMunmap (addrp length : Nat) : Sys Int := do
  if !ptrcheck env addrp then return -1
  plain (.boxMunmap addrp length)

/-! Threads. -/

/-- `futex_wait`, where `host_futex_wait` reads the time. -/
def futexWait (uaddr : Nat) (op val : BitVec 32) (timeoutp : Nat) : Sys Int := do
  if timeoutp = 0 then
    perform (.futex (.wait uaddr op val.toNat none))
  else
    if !bufcheck env timeoutp 16 8 then return -LINUX_EFAULT
    let timeout ← loadTime timeoutp
    perform (.futex (.wait uaddr op val.toNat (some timeout)))

def sysFutex (uaddrp : Nat) (op val : BitVec 32) (timeoutp uaddr2p : Nat) : Sys Int := do
  if uaddrp % 4 ≠ 0 then return -LINUX_EINVAL
  if !bufcheck env uaddrp 4 4 then return -LINUX_EINVAL
  let cmd := op &&& ~~~futexPrivateFlag
  if cmd = 0 then
    futexWait env uaddrp op val timeoutp
  else if cmd = 1 then
    perform (.futex (.wake uaddrp op val.toNat))
  else if cmd = 3 then
    if !bufcheck env uaddr2p 4 4 then return -LINUX_EINVAL
    perform (.futex (.requeue uaddrp op val.toNat (timeoutp % 2 ^ 32) uaddr2p))
  else
    return -LINUX_EINVAL

def sysGettid (t : LFILinuxThread) : Sys Int := return t.tid

def sysSetTidAddress (t : LFILinuxThread) (ctid : Nat) : Sys Int := do
  if !bufcheck env ctid 4 4 then return -LINUX_EINVAL
  perform (.setCtidp ctid)
  return t.tid

def sysArchPrctl (code : Int) (addr : Nat) : Sys Int := do
  match env.arch with
  | .x64 =>
    if code = 0x1002 then
      plain (.setTp addr)
      return 0
    return -LINUX_EINVAL
  | .arm64 => return -LINUX_ENOSYS

/-- The null pointer where the check of `ptrhost` fails. -/
def ptrhost (p : Nat) : Nat := if ptrcheck env p then p else 0

def clearctid (t : LFILinuxThread) : Sys Unit := do
  if t.ctidp ≠ 0 then
    perform (.store (ptrhost env t.ctidp) (leBytes 4 0))
    let _ ← sysFutex env t.ctidp 1 (BitVec.ofNat 32 (2 ^ 31 - 1)) 0 0
    pure ()

inductive LFIExitKind
  | thread
  | process
deriving DecidableEq, Repr

def lfiCtxExit (t : LFILinuxThread) (code : Int) : Sys α :=
  if t.inCtxRun then noreturn (.plain (.ctxExit code))
  else noreturn (.fatal .abort)

def threadExit (t : LFILinuxThread) (kind : LFIExitKind) (code : Int) : Sys α := do
  if kind = .process then
    plain (.terminate code)
  if t.owner = .host then
    clearctid env t
    noreturn (.plain .retEnd)
  else
    if t.paused then noreturn (.fatal .abort)
    else if t.exited then noreturn (.fatal .abort)
    else
      plain .setExited
      plain .listRemove
      clearctid env t
      lfiCtxExit t code

def sysCheckpoint (t : LFILinuxThread) : Sys Unit := do
  match ← plain .terminating with
  | none => pure ()
  | some code => threadExit env t .thread code

def sysLfiPause (t : LFILinuxThread) : Sys Int :=
  if t.paused then noreturn (.fatal .abort)
  else do
    plain .setPaused
    lfiCtxExit t 0

def LINUX_CLONE_VM : BitVec 64 := 0x100
def LINUX_CLONE_FS : BitVec 64 := 0x200
def LINUX_CLONE_FILES : BitVec 64 := 0x400
def LINUX_CLONE_SIGHAND : BitVec 64 := 0x800
def LINUX_CLONE_VFORK : BitVec 64 := 0x4000
def LINUX_CLONE_THREAD : BitVec 64 := 0x10000
def LINUX_CLONE_SYSVSEM : BitVec 64 := 0x40000
def LINUX_CLONE_SETTLS : BitVec 64 := 0x80000
def LINUX_CLONE_PARENT_SETTID : BitVec 64 := 0x100000
def LINUX_CLONE_CHILD_CLEARTID : BitVec 64 := 0x200000
def LINUX_CLONE_DETACHED : BitVec 64 := 0x400000
def LINUX_CLONE_CHILD_SETTID : BitVec 64 := 0x1000000
def LINUX_CLONE_IO : BitVec 64 := 0x80000000
def LINUX_SIGCHLD : BitVec 64 := 0x11

def isfork (flags : BitVec 64) : Bool :=
  let rest := flags &&& ~~~(LINUX_CLONE_CHILD_SETTID ||| LINUX_CLONE_CHILD_CLEARTID)
  rest = LINUX_SIGCHLD ∨ rest = LINUX_CLONE_VM ||| LINUX_CLONE_VFORK ||| LINUX_SIGCHLD

def requiredFlags : BitVec 64 :=
  LINUX_CLONE_THREAD ||| LINUX_CLONE_VM ||| LINUX_CLONE_FS ||| LINUX_CLONE_FILES |||
    LINUX_CLONE_SIGHAND

def allowedFlags : BitVec 64 :=
  requiredFlags ||| LINUX_CLONE_SETTLS ||| LINUX_CLONE_PARENT_SETTID |||
    LINUX_CLONE_CHILD_CLEARTID ||| LINUX_CLONE_CHILD_SETTID ||| LINUX_CLONE_SYSVSEM

/-- `~x` for an `unsigned`, which has 32 bits. -/
def complement (x : BitVec 64) : BitVec 64 := (~~~x.setWidth 32).setWidth 64

/-- The flags without the signal and the ignored ones. -/
def spawnFlags (flags : BitVec 64) : BitVec 64 :=
  flags &&& ~~~0xff &&& complement (LINUX_CLONE_DETACHED ||| LINUX_CLONE_IO)

/-- The flags are refused. -/
def refusesFlags (flags : BitVec 64) : Bool :=
  (flags &&& 0xff ≠ 0 ∧ flags &&& 0xff ≠ LINUX_SIGCHLD) ∨
    spawnFlags flags &&& complement allowedFlags ≠ 0 ∨
    spawnFlags flags &&& requiredFlags ≠ requiredFlags

/-- `spawn`, from `attach` on: the new thread runs on this host thread until it pauses. -/
def spawnAttached (new : ThreadId) : Sys Unit := do
  let code ← plain (.runFake new)
  check (code = 0)
  plain (.handOver new)

/-- `spawn`, where it starts a host thread. It is false where that fails. -/
def spawnThread (new : ThreadId) : Sys Bool := do
  if !(← plain (.mallocPthread new)) then
    plain (.threadFree new)
    return false
  plain (.listAdd new)
  if !(← plain (.pthreadCreate new)) then
    plain (.listDrop new)
    plain (.threadFree new)
    return false
  return true

def spawnOn (attach : Bool) (new : ThreadId) : Sys Bool := do
  if attach then
    spawnAttached new
    return true
  else spawnThread new

/-- What the caller asks for with a flag. -/
def onFlag (flags flag : BitVec 64) (o : SysOp Unit) : Sys Unit :=
  if flags &&& flag ≠ 0 then perform o else pure ()

def spawn (flags : BitVec 64) (stack ptidp ctidp tls : Nat) : Sys Int := do
  if refusesFlags flags then return -LINUX_EINVAL
  let flags := spawnFlags flags
  if !ptrcheck env stack then return -LINUX_EFAULT
  if !bufcheck env ctidp 4 4 then return -LINUX_EFAULT
  if !bufcheck env ptidp 4 4 then return -LINUX_EFAULT
  let attach ← plain .onCloneCtx
  match ← plain (.threadClone .runtime) with
  | none => return -LINUX_EAGAIN
  | some (new, tid) =>
    let tidBytes := leBytes 4 (BitVec.ofInt 32 tid).toNat
    onFlag flags LINUX_CLONE_SETTLS (.plain (.cloneTp new tls))
    onFlag flags LINUX_CLONE_CHILD_CLEARTID (.cloneCtidp new ctidp)
    onFlag flags LINUX_CLONE_CHILD_SETTID (.store (ptrhost env ctidp) tidBytes)
    plain (.cloneRegs new stack)
    if !(← spawnOn attach new) then return -LINUX_EAGAIN
    onFlag flags LINUX_CLONE_PARENT_SETTID (.store (ptrhost env ptidp) tidBytes)
    return tid

def sysClone (flags : BitVec 64) (stack ptid ctid tls : Nat) : Sys Int :=
  if isfork flags then return -LINUX_ENOSYS else spawn env flags stack ptid ctid tls

/-! The table. -/

inductive Sysno
  | archPrctl | brk | mmap | mprotect | munmap | clone | exitGroup | exit | pause
  | getpid | write | writev | read | readv | openat | «open» | close
  | gettid | futex | setTidAddress | schedGetaffinity | schedSetaffinity | schedYield
  | rtSigaction | rtSigprocmask | rtSigreturn | sigaltstack
  | lseek | pread64 | pwrite64 | getdents64 | newfstatat | fstat | stat | lstat | fchmod | chmod
  | truncate | ftruncate | fchown | fsync | mkdirat | mkdir | unlinkat | unlink
  | renameat | renameat2 | rename | faccessat | access | readlinkat | readlink
  | dup | dup2 | dup3 | chdir | fchdir | getcwd
  | nanosleep | clockGettime | time
  | getrandom | ioctl | fcntl | prctl | uname | sysinfo | getrlimit
  | setRobustList | membarrier | madvise | getrusage
  | statx | rseq | prlimit64 | statfs | getxattr | lgetxattr | socket | mremap | utimensat
deriving DecidableEq, Repr

/-- `LINUX_SYS_...`, with the numbers for x86-64 and for arm64, where there are such. -/
def numbers : List (Sysno × Option Nat × Option Nat) :=
  [(.archPrctl, some 158, none), (.brk, some 12, some 214), (.mmap, some 9, some 222),
    (.mprotect, some 10, some 226), (.munmap, some 11, some 215), (.clone, some 56, some 220),
    (.exitGroup, some 231, some 94), (.exit, some 60, some 93), (.pause, some 1024, some 1024),
    (.getpid, some 39, some 172), (.write, some 1, some 64), (.writev, some 20, some 66),
    (.read, some 0, some 63), (.readv, some 19, some 65), (.openat, some 257, some 56),
    (.open, some 2, none), (.close, some 3, some 57), (.gettid, some 186, some 178),
    (.futex, some 202, some 98), (.setTidAddress, some 218, some 96),
    (.schedGetaffinity, some 204, some 123), (.schedSetaffinity, some 203, some 122),
    (.schedYield, some 24, some 124), (.rtSigaction, some 13, some 134),
    (.rtSigprocmask, some 14, some 135), (.rtSigreturn, some 15, some 139),
    (.sigaltstack, some 131, some 132), (.lseek, some 8, some 62), (.pread64, some 17, some 67),
    (.pwrite64, some 18, some 68), (.getdents64, some 217, some 61),
    (.newfstatat, some 262, some 79), (.fstat, some 5, some 80), (.stat, some 4, none),
    (.lstat, some 6, none), (.fchmod, some 91, some 52), (.chmod, some 90, none),
    (.truncate, some 76, some 45), (.ftruncate, some 77, some 46), (.fchown, some 93, some 55),
    (.fsync, some 74, some 82), (.mkdirat, some 258, some 34), (.mkdir, some 83, none),
    (.unlinkat, some 263, some 35), (.unlink, some 87, none), (.renameat, some 264, some 38),
    (.renameat2, none, some 276), (.rename, some 82, none), (.faccessat, some 269, some 48),
    (.access, some 21, none), (.readlinkat, some 267, some 78), (.readlink, some 89, none),
    (.dup, some 32, some 23), (.dup2, some 33, none), (.dup3, none, some 24),
    (.chdir, some 80, some 49), (.fchdir, some 81, some 50), (.getcwd, some 79, some 17),
    (.nanosleep, some 35, some 101), (.clockGettime, some 228, some 113), (.time, some 201, none),
    (.getrandom, some 318, some 278), (.ioctl, some 16, some 29), (.fcntl, some 72, some 25),
    (.prctl, some 157, some 167), (.uname, some 63, some 160), (.sysinfo, some 99, some 179),
    (.getrlimit, some 97, some 163), (.setRobustList, some 273, some 99),
    (.membarrier, some 324, some 283), (.madvise, some 28, some 233),
    (.getrusage, some 98, some 165), (.statx, some 332, some 291), (.rseq, some 334, some 293),
    (.prlimit64, some 302, some 261), (.statfs, some 137, some 43), (.getxattr, some 191, some 8),
    (.lgetxattr, some 192, some 9), (.socket, some 41, some 198), (.mremap, some 25, some 216),
    (.utimensat, some 280, some 88)]

def Arch.pick : Arch → Option Nat × Option Nat → Option Nat
  | .x64, n => n.1
  | .arm64, n => n.2

/-- The `case` for a number. -/
def sysnoOf (arch : Arch) (n : BitVec 64) : Option Sysno :=
  (numbers.find? fun entry => arch.pick entry.2 = some n.toNat).map (·.1)

/-- `int` and `unsigned` parameters. -/
def int (a : BitVec 64) : Int := (a.setWidth 32).toInt

def uint (a : BitVec 64) : BitVec 32 := a.setWidth 32

/-- The system calls that are handled even with passthrough. -/
def handleAlways (t : LFILinuxThread) (a : Fin 6 → BitVec 64) : Sysno → Option (Sys Int)
  | .archPrctl => some (sysArchPrctl env (int (a 0)) (a 1).toNat)
  | .brk => some (sysBrk env (a 0).toNat)
  | .mmap =>
    some (sysMmap env (a 0).toNat (a 1).toNat (uint (a 2)) (uint (a 3)) (int (a 4)) (a 5).toInt)
  | .mprotect => some (sysMprotect env (a 0).toNat (a 1).toNat (uint (a 2)))
  | .munmap => some (sysMunmap env (a 0).toNat (a 1).toNat)
  | .clone =>
    match env.arch with
    | .x64 => some (sysClone env (a 0) (a 1).toNat (a 2).toNat (a 3).toNat (a 4).toNat)
    | .arm64 => some (sysClone env (a 0) (a 1).toNat (a 2).toNat (a 4).toNat (a 3).toNat)
  | .exitGroup => some (threadExit env t .process (int (a 0)))
  | .exit => some (threadExit env t .thread (int (a 0)))
  | .pause => some (sysLfiPause t)
  | _ => none

/-- The others. -/
def handle (t : LFILinuxThread) (a : Fin 6 → BitVec 64) : Sysno → Sys Int
  | .write => sysWrite env (int (a 0)) (a 1).toNat (a 2).toNat
  | .writev => sysWritev env (int (a 0)) (a 1).toNat (a 2).toNat
  | .read => sysRead env (int (a 0)) (a 1).toNat (a 2).toNat
  | .readv => sysReadv env (int (a 0)) (a 1).toNat (a 2).toNat
  | .openat => sysOpenat env (int (a 0)) (a 1).toNat (uint (a 2)) (uint (a 3))
  | .open => sysOpenat env (-100) (a 0).toNat (uint (a 1)) (uint (a 2))
  | .close => sysClose (int (a 0))
  | .gettid => sysGettid t
  | .futex =>
    sysFutex env (a 0).toNat (uint (a 1)) (uint (a 2)) (a 3).toNat (a 4).toNat
  | .setTidAddress => sysSetTidAddress env t (a 0).toNat
  | .schedGetaffinity => sysSchedGetaffinity env (a 1).toNat (a 2).toNat
  | .schedYield => sysSchedYield
  | .lseek => sysLseek (int (a 0)) (a 1).toInt (int (a 2))
  | .pread64 => sysPread64 env (int (a 0)) (a 1).toNat (a 2).toNat (a 3).toInt
  | .pwrite64 => sysPwrite64 env (int (a 0)) (a 1).toNat (a 2).toNat (a 3).toInt
  | .getdents64 => sysGetdents64 env (int (a 0)) (a 1).toNat (a 2).toNat
  | .newfstatat => sysNewfstatat env (int (a 0)) (a 1).toNat (a 2).toNat (uint (a 3))
  | .fstat => sysNewfstatat env (int (a 0)) 0 (a 1).toNat LINUX_AT_EMPTY_PATH
  | .stat | .lstat => sysNewfstatat env (-100) (a 0).toNat (a 1).toNat 0
  | .fchmod => sysFchmod (int (a 0)) (uint (a 1))
  | .chmod => sysChmod env (a 0).toNat (uint (a 1))
  | .truncate => sysTruncate env (a 0).toNat (a 1).toInt
  | .ftruncate => sysFtruncate (int (a 0)) (a 1).toInt
  | .fchown => sysFchown (int (a 0)) (uint (a 1)) (uint (a 2))
  | .fsync => sysFsync (int (a 0))
  | .mkdirat => sysMkdirat env (int (a 0)) (a 1).toNat (uint (a 2))
  | .mkdir => sysMkdirat env (-100) (a 0).toNat (uint (a 1))
  | .unlinkat => sysUnlinkat env (int (a 0)) (a 1).toNat (int (a 2))
  | .unlink => sysUnlinkat env (-100) (a 0).toNat 0
  | .renameat => sysRenameat env (int (a 0)) (a 1).toNat (int (a 2)) (a 3).toNat
  | .renameat2 => sysRenameat2 env (int (a 0)) (a 1).toNat (int (a 2)) (a 3).toNat (uint (a 4))
  | .rename => sysRenameat env (-100) (a 0).toNat (-100) (a 1).toNat
  | .faccessat => sysFaccessat env (int (a 0)) (a 1).toNat (uint (a 2))
  | .access => sysFaccessat env (-100) (a 0).toNat (uint (a 1))
  | .readlinkat => sysReadlinkat env (int (a 0)) (a 1).toNat (a 2).toNat (a 3).toNat
  | .readlink => sysReadlinkat env (-100) (a 0).toNat (a 1).toNat (a 2).toNat
  | .dup => sysDup (int (a 0))
  | .dup2 => sysDup3 (int (a 0)) (int (a 1)) 0
  | .dup3 => sysDup3 (int (a 0)) (int (a 1)) (int (a 2))
  | .chdir => sysChdir env (a 0).toNat
  | .fchdir => sysFchdir (int (a 0))
  | .getcwd => sysGetcwd env (a 0).toNat (a 1).toNat
  | .nanosleep => sysNanosleep env (a 0).toNat (a 1).toNat
  | .clockGettime => sysClockGettime env (int (a 0)) (a 1).toNat
  | .time => sysTime (a 0).toNat
  | .getrandom => sysGetrandom env (a 0).toNat (a 1).toNat (uint (a 2))
  | .ioctl => sysIoctl env (int (a 0)) (a 1).toNat (a 2).toNat
  | .prctl => sysPrctl env (int (a 0)) (a 1).toNat
  | .uname => sysUname env (a 0).toNat
  | .sysinfo => sysSysinfo env (a 0).toNat
  | .getrlimit => sysGetrlimit env t (int (a 0)) (a 1).toNat
  | .statx | .rseq | .prlimit64 | .statfs | .getxattr | .lgetxattr | .socket | .mremap
  | .utimensat => sysNosys
  | _ => sysIgnore

/-- `syshandle`, from the tables on. -/
def dispatch (t : LFILinuxThread) (sysno : BitVec 64) (a : Fin 6 → BitVec 64) : Sys Int :=
  match (sysnoOf env.arch sysno).bind (handleAlways env t a) with
  | some handler => handler
  | none =>
    if env.sysPassthrough then perform (.passthrough sysno a)
    else
      match sysnoOf env.arch sysno with
      | some s => handle env t a s
      | none =>
        if env.exitUnknownSyscalls then noreturn (.fatal .exit)
        else return -LINUX_ENOSYS

def syshandle (t : LFILinuxThread) (sysno : BitVec 64) (a : Fin 6 → BitVec 64) : Sys Int := do
  sysCheckpoint env t
  dispatch env t sysno a

/-! How a system call can end the host. -/

/-- The call is let through with flags that the host function does not know. -/
structure OddStat (env : Env) (dirfd : Int) (pathp statbufp : Nat) (flags : BitVec 32) : Prop where
  stat : bufcheck env statbufp (statSize env.arch) 8
  path : ptrcheck env pathp
  cwd : dirfd = Fchdir.LINUX_AT_FDCWD
  notEmptyPath : flags &&& LINUX_AT_EMPTY_PATH = 0
  flags : flags ≠ 0

/-- The call starts a thread. -/
structure Spawns (env : Env) (flags : BitVec 64) (stack ptidp ctidp : Nat) : Prop where
  flags : refusesFlags flags = false
  stack : ptrcheck env stack
  ctid : bufcheck env ctidp 4 4
  ptid : bufcheck env ptidp 4 4

/-- What the arguments of `clone` are on the two architectures. -/
def cloneArgs (arch : Arch) (a : Fin 6 → BitVec 64) : BitVec 64 × Nat × Nat × Nat :=
  match arch with
  | .x64 => (a 0, (a 1).toNat, (a 2).toNat, (a 3).toNat)
  | .arm64 => (a 0, (a 1).toNat, (a 2).toNat, (a 4).toNat)

/-- How the system call can end the host. -/
def MayEnd (env : Env) (t : LFILinuxThread) (sysno : BitVec 64) (a : Fin 6 → BitVec 64) :
    Fatal → Prop
  | .assertion =>
    sysnoOf env.arch sysno = some .newfstatat ∧
        OddStat env (int (a 0)) (a 1).toNat (a 2).toNat (uint (a 3)) ∨
      sysnoOf env.arch sysno = some .clone ∧ isfork (a 0) = false ∧
        Spawns env (cloneArgs env.arch a).1 (cloneArgs env.arch a).2.1 (cloneArgs env.arch a).2.2.1
          (cloneArgs env.arch a).2.2.2
  | .abort =>
    t.owner ≠ .host ∧ (t.paused ∨ t.exited ∨ t.inCtxRun = false) ∨
      sysnoOf env.arch sysno = some .pause ∧ (t.paused ∨ t.inCtxRun = false)
  | .exit => sysnoOf env.arch sysno = none ∧ env.exitUnknownSyscalls

/-! What the pointers of a system call have to fit. -/

/-- What a system call needs of the memory of the sandbox. -/
inductive Need
  | ptr (p : Nat)
  | buf (p size align : Nat)
deriving DecidableEq, Repr

def Need.ok (env : Env) : Need → Bool
  | .ptr p => ptrcheck env p
  | .buf p size align => bufcheck env p size align

/-- A buffer that is not looked at where it is empty. -/
def nonempty (p size align : Nat) : List Need := if size = 0 then [] else [.buf p size align]

/-- The pointers that each system call is made with, before it does anything. The buffer
for the time that `nanosleep` has left is looked at later. -/
def needs (env : Env) (a : Fin 6 → BitVec 64) : Sysno → List Need
  | .write | .read | .pread64 | .pwrite64 => nonempty (a 1).toNat (a 2).toNat 1
  | .writev | .readv => nonempty (a 1).toNat ((a 2).toNat * 16) 8
  | .openat | .mkdirat | .unlinkat | .faccessat => [.ptr (a 1).toNat]
  | .open | .chmod | .truncate | .mkdir | .unlink | .access | .chdir => [.ptr (a 0).toNat]
  | .renameat | .renameat2 => [.ptr (a 1).toNat, .ptr (a 3).toNat]
  | .rename => [.ptr (a 0).toNat, .ptr (a 1).toNat]
  | .readlinkat => [.ptr (a 1).toNat, .buf (a 2).toNat (a 3).toNat 1]
  | .readlink => [.ptr (a 0).toNat, .buf (a 1).toNat (a 2).toNat 1]
  | .newfstatat =>
    .buf (a 2).toNat (statSize env.arch) 8 ::
      if uint (a 3) &&& LINUX_AT_EMPTY_PATH = 0 then [.ptr (a 1).toNat] else []
  | .fstat => [.buf (a 1).toNat (statSize env.arch) 8]
  | .stat | .lstat => [.buf (a 1).toNat (statSize env.arch) 8, .ptr (a 0).toNat]
  | .futex =>
    .buf (a 0).toNat 4 4 ::
      let cmd := uint (a 1) &&& ~~~futexPrivateFlag
      if cmd = 0 then if (a 3).toNat = 0 then [] else [.buf (a 3).toNat 16 8]
      else if cmd = 3 then [.buf (a 4).toNat 4 4]
      else []
  | .setTidAddress => [.buf (a 0).toNat 4 4]
  | .schedGetaffinity => [.buf (a 2).toNat (ceilp env.cpucount 64 / 8) 1]
  | .getdents64 => [.buf (a 1).toNat (a 2).toNat 8]
  | .getcwd => nonempty (a 0).toNat (a 1).toNat 1
  | .nanosleep => [.buf (a 0).toNat 16 8]
  | .clockGettime | .getrlimit => [.buf (a 1).toNat 16 8]
  | .getrandom => [.buf (a 0).toNat (a 1).toNat 1]
  | .ioctl => [.buf (a 2).toNat 8 2]
  | .prctl => [.buf (a 1).toNat 16 1]
  | .uname => [.buf (a 0).toNat 325 1]
  | .sysinfo => [.buf (a 0).toNat 368 8]
  | .brk => if (a 0).toNat = 0 then [] else [.ptr (a 0).toNat]
  | .mmap =>
    if has (uint (a 3)) LFI_MAP_FIXED then [.ptr (truncp (a 0).toNat env.pagesize)] else []
  | .mprotect | .munmap => [.ptr (a 0).toNat]
  | .clone =>
    let (_, stack, ptid, ctid) := cloneArgs env.arch a
    [.ptr stack, .buf ctid 4 4, .buf ptid 4 4]
  | _ => []

end LfiRuntime.Syscalls
