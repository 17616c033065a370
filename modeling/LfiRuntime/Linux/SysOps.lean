import LfiRuntime.Lib.Bytes
import LfiRuntime.Lib.Programs
import LfiRuntime.Linux.Align
import LfiRuntime.Linux.Futex
import LfiRuntime.Linux.Path
import LfiRuntime.Linux.Vectored

/-!
What the handlers of the system calls do to the sandbox, the host and the process, one
operation after the other, and the helpers of `sys.h`. The answers are free: the other
threads change the memory and the process between two operations.
-/

namespace LfiRuntime.Syscalls

open LfiRuntime.ByteString
open LfiRuntime.Futex
open LfiRuntime.PagedMemory
open LfiRuntime.Path
open LfiRuntime.Programs
open LfiRuntime.Programs.Program
open LfiRuntime.Vectored

inductive Arch
  | x64
  | arm64
deriving DecidableEq, Repr

/-- What does not change while a process runs. -/
structure Env where
  arch : Arch
  box : BoxRange.Box
  boxsize : Nat
  pagesize : Nat
  verbose : Bool
  sysPassthrough : Bool
  exitUnknownSyscalls : Bool
  /-- `host_cpucount()`. -/
  cpucount : Nat

inductive LFIThreadOwner
  | main
  | runtime
  | host
deriving DecidableEq, Repr

structure LFILinuxThread where
  tid : Int
  ctidp : Nat
  owner : LFIThreadOwner
  exited : Bool
  paused : Bool
  /-- `in_ctx_run` of its context. -/
  inCtxRun : Bool
  stackSize : Nat

abbrev ThreadId := Nat

inductive ClockId
  | realtime
  | monotonic
  | processCputimeId
deriving DecidableEq, Repr

structure WinSize where
  wsRow : Nat
  wsCol : Nat
  wsXpixel : Nat
  wsYpixel : Nat

/-- `struct stat` of the host. -/
structure KStat where
  dev : Nat
  ino : Nat
  nlink : Nat
  mode : Nat
  uid : Nat
  gid : Nat
  rdev : Nat
  size : Nat
  blksize : Nat
  blocks : Nat
  atim : TimeSpec
  mtim : TimeSpec
  ctim : TimeSpec

/-- `struct sysinfo` of the host. -/
structure KSysInfo where
  uptime : Nat
  loads : Nat × Nat × Nat
  totalram : Nat
  freeram : Nat
  sharedram : Nat
  bufferram : Nat
  totalswap : Nat
  freeswap : Nat
  procs : Nat
  totalhigh : Nat
  freehigh : Nat
  memUnit : Nat

inductive OpenFlag
  | wronly
  | rdwr
  | creat
  | append
  | nonblock
  | directory
deriving DecidableEq, Repr

inductive AccessMode
  | read
  | write
  | exec
deriving DecidableEq, Repr

/-- Host calls that get a buffer of the sandbox. -/
inductive BufCall
  | read (kfd : Int)
  | write (kfd : Int)
  | pread (kfd offset : Int)
  | pwrite (kfd offset : Int)
  | readlink (path : Bytes)
  | getdents (kfd : Int)
  | getrandom (flags : BitVec 32)

/-- Host calls that give a number, and see nothing of the sandbox. -/
inductive HostCall
  | lseek (kfd offset whence : Int)
  | openPath (path : Bytes) (flags : List OpenFlag) (mode : BitVec 32)
  | close (kfd : Int)
  | access (path : Bytes) (mode : List AccessMode)
  | chmod (path : Bytes) (mode : BitVec 32)
  | fchmod (kfd : Int) (mode : BitVec 32)
  | fchown (kfd : Int) (owner group : BitVec 32)
  | fsync (kfd : Int)
  | truncate (path : Bytes) (length : Int)
  | ftruncate (kfd length : Int)
  | mkdir (path : Bytes) (mode : BitVec 32)
  | unlink (path : Bytes)
  | rename (old new : Bytes)
  | time
  | schedYield

inductive Fatal
  | assertion
  | abort
  | exit
deriving DecidableEq, Repr

/-- The host descriptor (-1 for none), the flags, and whether it is a directory. -/
structure FdRef where
  kfd : Int
  flags : BitVec 32
  isdir : Bool

/-- Operations that get no address of the sandbox to access. -/
inductive PlainOp : Type → Type
  -- the host
  | malloc (size : Nat) : PlainOp Bool
  | host (c : HostCall) : PlainOp (Except HostErrno Int)
  | clockGettime (clockid : ClockId) : PlainOp (Except HostErrno TimeSpec)
  | nanosleep (req : TimeSpec) : PlainOp (Except HostErrno TimeSpec)
  | tiocgwinsz (kfd : Int) : PlainOp (Except Int WinSize)
  | sysinfo : PlainOp (Except HostErrno KSysInfo)
  | fstat (kfd : Int) : PlainOp (Except HostErrno KStat)
  | fstatat (path : Bytes) : PlainOp (Except HostErrno KStat)
  | checkdir (path : Bytes) : PlainOp Bool
  -- the process
  | fdacquire (fd : Int) : PlainOp FdRef
  | fdrelease (kfd : Int) : PlainOp Unit
  | fdclose (fd : Int) : PlainOp Bool
  | fddup2 (oldfd newfd : Int) : PlainOp Int
  | fdalloc (kfd : Int) (dir : Option Bytes) (flags : BitVec 32) : PlainOp Int
  | fddir (fd : Int) : PlainOp (Option (Option Bytes))
  | pathResolve (path : Bytes) : PlainOp (Option Bytes)
  | cwd : PlainOp {bs : Bytes // bs.length < FILENAME_MAX}
  | procChdir (path : Bytes) : PlainOp Int
  | brk (addr : Nat) : PlainOp Int
  | boxMapany (size : Nat) (prot flags : BitVec 32) (kfd off : Int) : PlainOp (Option Nat)
  | boxMapat (addr size : Nat) (prot flags : BitVec 32) (kfd off : Int) : PlainOp (Option Nat)
  | boxMprotect (addr size : Nat) (prot : BitVec 32) : PlainOp Int
  | boxMunmap (addr size : Nat) : PlainOp Int
  | terminating : PlainOp (Option Int)
  | terminate (code : Int) : PlainOp Unit
  -- the thread that makes the call
  | setTp (tp : Nat) : PlainOp Unit
  | setPaused : PlainOp Unit
  | setExited : PlainOp Unit
  | listRemove : PlainOp Unit
  | onCloneCtx : PlainOp Bool
  | ctxExit (code : Int) : PlainOp Empty
  | retEnd : PlainOp Empty
  -- a new thread
  | threadClone (owner : LFIThreadOwner) : PlainOp (Option (ThreadId × Int))
  | cloneTp (new : ThreadId) (tls : Nat) : PlainOp Unit
  | cloneRegs (new : ThreadId) (stack : Nat) : PlainOp Unit
  | runFake (new : ThreadId) : PlainOp Int
  | handOver (new : ThreadId) : PlainOp Unit
  | mallocPthread (new : ThreadId) : PlainOp Bool
  | listAdd (new : ThreadId) : PlainOp Unit
  | listDrop (new : ThreadId) : PlainOp Unit
  | pthreadCreate (new : ThreadId) : PlainOp Bool
  | threadFree (new : ThreadId) : PlainOp Unit

inductive SysOp : Type → Type 1
  | load (p n : Nat) : SysOp {bs : Bytes // bs.length = n}
  | strncpy (p n : Nat) : SysOp {bs : Bytes // bs.length ≤ n}
  | store (p : Nat) (bs : Bytes) : SysOp Unit
  | hostBuf (c : BufCall) (buf size : Nat) : SysOp (Except HostErrno Int)
  | futex (c : Futex.HostCall) : SysOp Int
  | setCtidp (ctid : Nat) : SysOp Unit
  | cloneCtidp (new : ThreadId) (ctid : Nat) : SysOp Unit
  | passthrough (sysno : BitVec 64) (a : Fin 6 → BitVec 64) : SysOp Int
  | fatal (f : Fatal) : SysOp Empty
  | plain (o : PlainOp α) : SysOp α

abbrev Sys := Program SysOp

def plain (o : PlainOp α) : Sys α := perform (.plain o)

/-- A call that does not return. -/
def noreturn (o : SysOp Empty) : Sys α := .call o fun x => x.elim

/-- `assert`. -/
def check (c : Bool) : Sys Unit := if c then pure () else noreturn (.fatal .assertion)

/-- `HOST_ERR`. -/
def HOST_ERR : Except HostErrno Int → Int
  | .error err => hostErr err
  | .ok r => r

/-- The error that goes to the sandbox, or what follows. -/
def orHostErr (r : Except HostErrno α) (next : α → Sys Int) : Sys Int :=
  match r with
  | .error err => pure (hostErr err)
  | .ok a => next a

/-- The fields at their offsets from `p`. -/
def storeFields (p : Nat) : List (Nat × Bytes) → Sys Unit
  | [] => pure ()
  | (off, bs) :: rest => do
    perform (.store (p + off) bs)
    storeFields p rest

/-! `sys.h`. A pointer of the sandbox is the same pointer for the host, so that `bufhost`
and `ptrhost` are their checks. -/

variable (env : Env)

def ptrcheck (p : Nat) : Bool := env.box.min ≤ p ∧ p < env.box.max

def bufcheck (p size align : Nat) : Bool := env.box.bufcheck p size align

def copyout (p size : Nat) : Sys (Option {bs : Bytes // bs.length = size}) := do
  check (bufcheck env p size 1)
  if !(← plain (.malloc size)) then return none
  -- `lfi_box_copyfm`
  check (env.box.bufvalid p size)
  return some (← perform (.load p size))

/-- `lfi_box_copyto`. -/
def boxCopyto (p : Nat) (bs : Bytes) : Sys Unit := do
  check (env.box.bufvalid p bs.length)
  perform (.store p bs)

def copyin (p : Nat) (bs : Bytes) : Sys Unit := do
  check (bufcheck env p bs.length 1)
  boxCopyto env p bs

def pathcopy (pathp : Nat) : Sys (Option Bytes) := do
  if !ptrcheck env pathp then return none
  let maxlen := min (env.box.max - pathp) (FILENAME_MAX - 1)
  if !(← plain (.malloc FILENAME_MAX)) then return none
  return some (← perform (.strncpy pathp maxlen)).1

/-- The sandbox path and the host path. -/
def pathcopyresolve (pathp : Nat) : Sys (Option (Bytes × Bytes)) := do
  match ← pathcopy env pathp with
  | none => return none
  | some path => return (← plain (.pathResolve path)).map fun hostPath => (path, hostPath)

/-- What follows with the host path, or `err`. -/
def withPath (pathp : Nat) (err : Int) (next : Bytes → Sys Int) : Sys Int := do
  match ← pathcopyresolve env pathp with
  | none => return err
  | some (_, hostPath) => next hostPath

/-- `FD_ACQUIRE`, for the rest of the handler. -/
def withFd (fd : Int) (next : FdRef → Sys Int) : Sys Int := do
  let f ← plain (.fdacquire fd)
  let r ← next f
  plain (.fdrelease f.kfd)
  return r

end LfiRuntime.Syscalls
