import LfiRuntime.Box.Box
import LfiRuntime.Linux.Fchdir
import LfiRuntime.Linux.SysOps

/-!
The handlers of the system calls, as in the files of `linux/sys`.
-/

namespace LfiRuntime.Syscalls

open LfiRuntime.Align
open LfiRuntime.Box
open LfiRuntime.ByteString
open LfiRuntime.Fd
open LfiRuntime.Fchdir (LINUX_AT_FDCWD LINUX_ENOTDIR)
open LfiRuntime.Futex
open LfiRuntime.PagedMemory
open LfiRuntime.Path
open LfiRuntime.Programs
open LfiRuntime.Programs.Program
open LfiRuntime.Vectored

def LINUX_ENOENT : Int := 2
def LINUX_EAGAIN : Int := 11
def LINUX_EACCES : Int := 13
def LINUX_EFAULT : Int := 14
def LINUX_ENOSYS : Int := 38

variable (env : Env)

/-! Data of the host. -/

/-- `read` and `readv`. -/
def sysRead (fd : Int) (bufp size : Nat) : Sys Int := do
  if size = 0 then return 0
  withFd fd fun f => do
    if f.kfd = -1 then return -LINUX_EBADF
    if f.flags &&& LINUX_O_PATH ≠ 0 then return -LINUX_EBADF
    if f.isdir then return -LINUX_EISDIR
    if !bufcheck env bufp size 1 then return -LINUX_EINVAL
    return HOST_ERR (← perform (.hostBuf (.read f.kfd) bufp size))

def sysWrite (fd : Int) (bufp size : Nat) : Sys Int := do
  if size = 0 then return 0
  withFd fd fun f => do
    if f.kfd = -1 then return -LINUX_EBADF
    if !bufcheck env bufp size 1 then return -LINUX_EINVAL
    return HOST_ERR (← perform (.hostBuf (.write f.kfd) bufp size))

/-- The elements of the list that `copyout` has copied. -/
def iovecs (bs : Bytes) (iovcnt : Nat) : List IOVec :=
  (List.range iovcnt).map fun i => ⟨field bs (16 * i) 8, field bs (16 * i + 8) 8⟩

/-- The loop of `sys_readv` and `sys_writev`. -/
def vecLoop (io : Nat → Nat → Sys Int) : Int → List IOVec → Sys Int
  | total, [] => return total
  | total, v :: rest => do
    let n ← io v.base v.len
    if n < 0 then return n
    vecLoop io (total + n) rest

/-- `sys_readv` with `sys_read`, and `sys_writev` with `sys_write`. -/
def sysVec (io : Nat → Nat → Sys Int) (iovp iovcnt : Nat) : Sys Int := do
  if iovcnt > IOV_MAX_LFI then return -LINUX_EINVAL
  if iovcnt = 0 then return 0
  if !bufcheck env iovp (iovcnt * 16) 8 then return -LINUX_EINVAL
  match ← copyout env iovp (iovcnt * 16) with
  | none => return -LINUX_ENOMEM
  | some iov => vecLoop io 0 (iovecs iov iovcnt)

def sysReadv (fd : Int) (iovp iovcnt : Nat) : Sys Int :=
  sysVec env (sysRead env fd) iovp iovcnt

def sysWritev (fd : Int) (iovp iovcnt : Nat) : Sys Int :=
  sysVec env (sysWrite env fd) iovp iovcnt

/-- `sys_pread64` and `sys_pwrite64`. -/
def sysPio (call : Int → BufCall) (fd : Int) (bufp size : Nat) : Sys Int := do
  if size = 0 then return 0
  withFd fd fun f => do
    if f.kfd = -1 then return -LINUX_EBADF
    if !bufcheck env bufp size 1 then return -LINUX_EFAULT
    return HOST_ERR (← perform (.hostBuf (call f.kfd) bufp size))

def sysPread64 (fd : Int) (bufp size : Nat) (offset : Int) : Sys Int :=
  sysPio env (fun kfd => .pread kfd offset) fd bufp size

def sysPwrite64 (fd : Int) (bufp size : Nat) (offset : Int) : Sys Int :=
  sysPio env (fun kfd => .pwrite kfd offset) fd bufp size

def sysGetdents64 (fd : Int) (dirp count : Nat) : Sys Int :=
  withFd fd fun f => do
    if f.kfd = -1 then return -LINUX_EBADF
    if !bufcheck env dirp count 8 then return -LINUX_EINVAL
    return HOST_ERR (← perform (.hostBuf (.getdents f.kfd) dirp count))

def LINUX_GRND_NONBLOCK : BitVec 32 := 1
def LINUX_GRND_RANDOM : BitVec 32 := 2

def sysGetrandom (bufp buflen : Nat) (flags : BitVec 32) : Sys Int := do
  if !bufcheck env bufp buflen 1 then return -LINUX_EINVAL
  if flags &&& (~~~LINUX_GRND_RANDOM &&& ~~~LINUX_GRND_NONBLOCK) ≠ 0 then return -LINUX_EINVAL
  return HOST_ERR (← perform (.hostBuf (.getrandom flags) bufp buflen))

/-! Descriptors. -/

/-- The handlers that make one call on a descriptor. -/
def onFd (fd : Int) (call : Int → HostCall) : Sys Int :=
  withFd fd fun f => do
    if f.kfd = -1 then return -LINUX_EBADF
    return HOST_ERR (← plain (.host (call f.kfd)))

def sysLseek (fd offset whence : Int) : Sys Int := onFd fd fun kfd => .lseek kfd offset whence

def sysFchmod (fd : Int) (mode : BitVec 32) : Sys Int := onFd fd fun kfd => .fchmod kfd mode

def sysFchown (fd : Int) (owner group : BitVec 32) : Sys Int :=
  onFd fd fun kfd => .fchown kfd owner group

def sysFsync (fd : Int) : Sys Int := onFd fd .fsync

def sysFtruncate (fd length : Int) : Sys Int := onFd fd fun kfd => .ftruncate kfd length

def sysClose (fd : Int) : Sys Int := do
  if !(← plain (.fdclose fd)) then return -LINUX_EBADF
  return 0

def sysDup (oldfd : Int) : Sys Int := plain (.fddup2 oldfd (-1))

def sysDup3 (oldfd newfd flags : Int) : Sys Int := do
  if flags ≠ 0 then return -LINUX_EINVAL
  plain (.fddup2 oldfd newfd)

def LINUX_TIOCGWINSZ : Nat := 0x5413

/-- `struct WinSize`. -/
def WinSize.bytes (ws : WinSize) : Bytes :=
  leBytes 2 ws.wsRow ++ leBytes 2 ws.wsCol ++ leBytes 2 ws.wsXpixel ++ leBytes 2 ws.wsYpixel

def sysIoctl (fd : Int) (request va0 : Nat) : Sys Int := do
  if request ≠ LINUX_TIOCGWINSZ then return -LINUX_EINVAL
  if !bufcheck env va0 8 2 then return -LINUX_EINVAL
  withFd fd fun f => do
    if f.kfd = -1 then return -LINUX_EBADF
    match ← plain (.tiocgwinsz f.kfd) with
    | .error errno => return -errno
    | .ok ws => do
      boxCopyto env va0 ws.bytes
      return 0

/-! Paths. -/

/-- The handlers that make one call on a path. -/
def onPath (pathp : Nat) (call : Bytes → HostCall) : Sys Int :=
  withPath env pathp (-LINUX_EINVAL) fun hostPath => do
    return HOST_ERR (← plain (.host (call hostPath)))

def openflags (flags : BitVec 32) : List OpenFlag :=
  [(0x1, OpenFlag.wronly), (0x2, .rdwr), (0x40, .creat), (0x400, .append), (0x800, .nonblock),
    (0x10000, .directory)].filterMap fun f : BitVec 32 × OpenFlag =>
      if flags &&& f.1 ≠ 0 then some f.2 else none

def sysOpenat (dirfd : Int) (pathp : Nat) (flags mode : BitVec 32) : Sys Int := do
  if dirfd ≠ LINUX_AT_FDCWD then return -LINUX_EBADF
  match ← pathcopyresolve env pathp with
  | none => return -LINUX_ENOENT
  | some (path, hostPath) =>
    orHostErr (← plain (.host (.openPath hostPath (openflags flags) mode))) fun kfd => do
      let isdir ← plain (.checkdir hostPath)
      let fd ← plain (.fdalloc kfd (if isdir then some path else none) flags)
      if fd < 0 then
        let _ ← plain (.host (.close kfd))
        return fd
      return fd

def sysChmod (pathp : Nat) (mode : BitVec 32) : Sys Int := onPath env pathp fun p => .chmod p mode

def sysTruncate (pathp : Nat) (length : Int) : Sys Int :=
  onPath env pathp fun p => .truncate p length

def sysMkdirat (dirfd : Int) (pathp : Nat) (mode : BitVec 32) : Sys Int := do
  if dirfd ≠ LINUX_AT_FDCWD then return -LINUX_EBADF
  onPath env pathp fun p => .mkdir p mode

def sysUnlinkat (dirfd : Int) (pathp : Nat) (flags : Int) : Sys Int := do
  if dirfd ≠ LINUX_AT_FDCWD then return -LINUX_EBADF
  if flags ≠ 0 then return -LINUX_EINVAL
  onPath env pathp .unlink

def accessmode (mode : BitVec 32) : List AccessMode :=
  if mode = 0 then []
  else [(4, AccessMode.read), (2, .write), (1, .exec)].filterMap fun m : BitVec 32 × AccessMode =>
    if mode &&& m.1 ≠ 0 then some m.2 else none

def sysFaccessat (dirfd : Int) (pathp : Nat) (mode : BitVec 32) : Sys Int := do
  if dirfd ≠ LINUX_AT_FDCWD then return -LINUX_EBADF
  onPath env pathp fun p => .access p (accessmode mode)

def sysRenameat (olddir : Int) (oldpathp : Nat) (newdir : Int) (newpathp : Nat) : Sys Int := do
  if olddir ≠ LINUX_AT_FDCWD ∨ newdir ≠ LINUX_AT_FDCWD then return -LINUX_EBADF
  withPath env oldpathp (-LINUX_EINVAL) fun old =>
    withPath env newpathp (-LINUX_EINVAL) fun new => do
      return HOST_ERR (← plain (.host (.rename old new)))

def sysRenameat2 (olddir : Int) (oldpathp : Nat) (newdir : Int) (newpathp : Nat)
    (flags : BitVec 32) : Sys Int := do
  if flags ≠ 0 then return -LINUX_EINVAL
  sysRenameat env olddir oldpathp newdir newpathp

def sysReadlinkat (dirfd : Int) (pathp bufp size : Nat) : Sys Int := do
  if dirfd ≠ LINUX_AT_FDCWD then return -LINUX_EBADF
  withPath env pathp (-LINUX_EINVAL) fun hostPath => do
    if !bufcheck env bufp size 1 then return -LINUX_EINVAL
    return HOST_ERR (← perform (.hostBuf (.readlink hostPath) bufp size))

def sysChdir (pathp : Nat) : Sys Int := do
  match ← pathcopy env pathp with
  | none => return -LINUX_EINVAL
  | some path => plain (.procChdir path)

def sysFchdir (fd : Int) : Sys Int := do
  if fd < 0 ∨ fd ≥ LINUX_NOFILE then return -LINUX_EBADF
  match ← plain (.fddir fd) with
  | none => return -LINUX_EBADF
  | some none => return -LINUX_ENOTDIR
  | some (some dir) => plain (.procChdir (dir.take (FILENAME_MAX - 1)))

def sysGetcwd (bufp size : Nat) : Sys Int := do
  if size = 0 then return 0
  if !bufcheck env bufp size 1 then return -LINUX_EINVAL
  let path ← plain .cwd
  let len := min size (path.1.length + 1)
  perform (.store bufp ((path.1 ++ [0]).take len))
  perform (.store (bufp + (len - 1)) [0])
  return len

/-- `sizeof(struct Stat)`. -/
def statSize : Arch → Nat
  | .x64 => 144
  | .arm64 => 128

/-- `copystat`, in its order. -/
def statFields (arch : Arch) (k : KStat) : List (Nat × Bytes) :=
  let head : List (Nat × Bytes) :=
    match arch with
    | .x64 =>
      [(0, leBytes 8 k.dev), (8, leBytes 8 k.ino), (16, leBytes 8 k.nlink), (24, leBytes 4 k.mode),
        (28, leBytes 4 k.uid), (32, leBytes 4 k.gid), (40, leBytes 8 k.rdev),
        (48, leBytes 8 k.size), (56, leBytes 8 k.blksize)]
    | .arm64 =>
      [(0, leBytes 8 k.dev), (8, leBytes 8 k.ino), (20, leBytes 4 k.nlink), (16, leBytes 4 k.mode),
        (24, leBytes 4 k.uid), (28, leBytes 4 k.gid), (32, leBytes 8 k.rdev),
        (48, leBytes 8 k.size), (56, leBytes 4 k.blksize)]
  head ++
    [(64, leBytes 8 k.blocks), (72, leBytes 8 k.atim.sec), (80, leBytes 8 k.atim.nsec),
      (88, leBytes 8 k.mtim.sec), (96, leBytes 8 k.mtim.nsec), (104, leBytes 8 k.ctim.sec),
      (112, leBytes 8 k.ctim.nsec)]

def LINUX_AT_EMPTY_PATH : BitVec 32 := 0x1000

/-- `host_fstatat`, with the call that it makes. -/
def hostFstatat (call : PlainOp (Except HostErrno KStat)) (stat : Nat) (flags : BitVec 32) :
    Sys Int := do
  check (flags = LINUX_AT_EMPTY_PATH ∨ flags = 0)
  orHostErr (← plain call) fun k => do
    storeFields stat (statFields env.arch k)
    return 0

def sysNewfstatat (dirfd : Int) (pathp statbufp : Nat) (flags : BitVec 32) : Sys Int := do
  if !bufcheck env statbufp (statSize env.arch) 8 then return -LINUX_EINVAL
  if flags &&& LINUX_AT_EMPTY_PATH = 0 then
    withPath env pathp (-LINUX_EINVAL) fun hostPath => do
      if dirfd ≠ LINUX_AT_FDCWD then return -LINUX_EBADF
      hostFstatat env (.fstatat hostPath) statbufp flags
  else
    withFd dirfd fun f => do
      if f.kfd = -1 then return -LINUX_EBADF
      hostFstatat env (.fstat f.kfd) statbufp LINUX_AT_EMPTY_PATH

/-! Times, and other data of the system. -/

/-- `struct TimeSpec`. -/
def timeFields (ts : TimeSpec) : List (Nat × Bytes) :=
  [(0, leBytes 8 ts.sec), (8, leBytes 8 ts.nsec)]

/-- The two fields, read one after the other. -/
def loadTime (p : Nat) : Sys TimeSpec := do
  let sec ← perform (.load p 8)
  let nsec ← perform (.load (p + 8) 8)
  return ⟨ofBytes sec.1, ofBytes nsec.1⟩

def hostClockid (clockid : Int) : Option ClockId :=
  if clockid = 0 then some .realtime
  else if clockid = 1 then some .monotonic
  else if clockid = 2 then some .processCputimeId
  else none

def sysClockGettime (clockid : Int) (tp : Nat) : Sys Int := do
  match hostClockid clockid with
  | none => return -LINUX_EINVAL
  | some hClockid =>
    if !bufcheck env tp 16 8 then return -LINUX_EFAULT
    orHostErr (← plain (.clockGettime hClockid)) fun ts => do
      storeFields tp (timeFields ts)
      return 0

def sysNanosleep (reqp remp : Nat) : Sys Int := do
  if !bufcheck env reqp 16 8 then return -LINUX_EINVAL
  let req ← loadTime reqp
  orHostErr (← plain (.nanosleep req)) fun rem => do
    if remp ≠ 0 then
      if !bufcheck env remp 16 8 then return -LINUX_EFAULT
      storeFields remp (timeFields rem)
      return 0
    return 0

def sysTime (tlocp : Nat) : Sys Int := do
  if tlocp ≠ 0 then return -LINUX_EINVAL
  return HOST_ERR (← plain (.host .time))

/-- `struct SysInfo` without `loads`, with zeros in the padding. -/
def KSysInfo.bytes (k : KSysInfo) : Bytes :=
  leBytes 8 k.uptime ++ leBytes 24 0 ++ leBytes 8 k.totalram ++ leBytes 8 k.freeram ++
    leBytes 8 k.sharedram ++ leBytes 8 k.bufferram ++ leBytes 8 k.totalswap ++
    leBytes 8 k.freeswap ++ leBytes 2 k.procs ++ leBytes 6 0 ++ leBytes 8 k.totalhigh ++
    leBytes 8 k.freehigh ++ leBytes 4 k.memUnit ++ leBytes 260 0

/-- The assignments of `sys_sysinfo`. -/
def KSysInfo.fields (k : KSysInfo) : List (Nat × Bytes) :=
  [(0, k.bytes), (8, leBytes 8 k.loads.1), (16, leBytes 8 k.loads.2.1), (24, leBytes 8 k.loads.2.2)]

def sysSysinfo (infop : Nat) : Sys Int := do
  if !bufcheck env infop 368 8 then return -LINUX_EINVAL
  orHostErr (← plain .sysinfo) fun k => do
    storeFields infop k.fields
    return 0

/-- A string with its zero. -/
def cstr (s : String) : Bytes := s.toList.map (fun c => UInt8.ofNat c.toNat) ++ [0]

/-- The strings of `sys_uname`, in fields of 65 bytes. -/
def unameFields (arch : Arch) : List (Nat × Bytes) :=
  [(0, cstr "Linux LFI"), (65, cstr "lfi-sandbox"), (130, cstr "4.5.0-lfi"),
    (195, cstr "0.0.0-unknown"),
    (260, cstr (match arch with
      | .x64 => "x86_64"
      | .arm64 => "aarch64"))]

def sysUname (bufp : Nat) : Sys Int := do
  if !bufcheck env bufp 325 1 then return -LINUX_EINVAL
  storeFields bufp (unameFields env.arch)
  return 0

/-- The limit that is reported as both `max` and `cur`. -/
def rlimit (t : LFILinuxThread) (resource : Int) : Option Nat :=
  if resource = 3 then some t.stackSize
  else if resource = 9 ∨ resource = 5 ∨ resource = 2 then some env.boxsize
  else if resource = 4 then some 0
  else if resource = 7 then some LINUX_NOFILE
  else none

def sysGetrlimit (t : LFILinuxThread) (resource : Int) (rlimp : Nat) : Sys Int := do
  if !bufcheck env rlimp 16 8 then return -LINUX_EINVAL
  match rlimit env t resource with
  | none => return -LINUX_EINVAL
  | some limit =>
    storeFields rlimp [(8, leBytes 8 limit), (0, leBytes 8 limit)]
    return 0

/-- The bits of the first `count` processors, in whole bytes. -/
def cpuMask (count rc : Nat) : Bytes :=
  (List.range rc).map fun i => UInt8.ofNat (2 ^ min 8 (count - 8 * i) - 1)

def sysSchedGetaffinity (cpusetsize maskaddr : Nat) : Sys Int := do
  let rc := ceilp env.cpucount 64 / 8
  if cpusetsize < rc then return -LINUX_EINVAL
  if !bufcheck env maskaddr rc 1 then return -LINUX_EINVAL
  if !(← plain (.malloc rc)) then return -LINUX_ENOMEM
  copyin env maskaddr (cpuMask (min env.cpucount (rc * 8)) rc)
  return rc

def sysSchedYield : Sys Int := do
  return match ← plain (.host .schedYield) with
    | .error _ => -1
    | .ok r => r

def LINUX_PR_SET_NAME : Int := 15

def prSetName (namep : Nat) : Sys Int := do
  if !bufcheck env namep 16 1 then return -LINUX_EINVAL
  -- the name is only read for the log
  if env.verbose then
    let _ ← perform (.strncpy namep 16)
  return 0

def sysPrctl (op : Int) (arg2 : Nat) : Sys Int := do
  if op = LINUX_PR_SET_NAME then prSetName env arg2 else return -LINUX_EINVAL

def sysIgnore : Sys Int := return 0

def sysNosys : Sys Int := return -LINUX_ENOSYS

end LfiRuntime.Syscalls
