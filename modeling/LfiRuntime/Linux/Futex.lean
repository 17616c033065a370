import LfiRuntime.Lib.Runs
import LfiRuntime.Lib.WaitQueue
import LfiRuntime.Linux.BoxRange

/-!
`sys_futex` on its two host backends. The threads of a sandbox call it on the
words of the sandbox, sleep in the host, and are woken, time out or are
interrupted, in any order. For every call that returns, the value of the Linux
system call in the same state is kept beside the value of the code.
-/

namespace LfiRuntime.Futex

open LfiRuntime.BoxRange
open LfiRuntime.WaitQueue

inductive Errno
  | enoent
  | eintr
  | eagain
  | efault
  | einval
  | etimedout
deriving DecidableEq, Repr

/-- The numbers in `linux.h`. -/
def Errno.linux : Errno → Int
  | .enoent => 2
  | .eintr => 4
  | .eagain => 11
  | .efault => 14
  | .einval => 22
  | .etimedout => 110

/-- How a host call ends: it returns a number, or -1 with `errno` set. -/
inductive HostResult
  | ok (n : Nat)
  | err (e : Errno)
deriving DecidableEq, Repr

/-- What the Linux system call returns to the program that makes it. -/
def HostResult.linux : HostResult → Int
  | .ok n => n
  | .err e => -e.linux

inductive Backend
  | linux
  | macos
deriving DecidableEq, Repr

structure TimeSpec where
  sec : Nat
  nsec : Nat
deriving DecidableEq, Repr

/-- The kernel takes it for a time: the seconds are signed there. -/
def TimeSpec.valid (ts : TimeSpec) : Bool := ts.sec < 2 ^ 63 ∧ ts.nsec < 1000000000

/-- Sandbox memory, read as words and as times. `readable` is the page of an address, and
`object` is what the kernel takes the word there to be when it is asked without the private
flag: two addresses that map one file can share it, and there is none where it refuses the
page. -/
structure Memory where
  word : Nat → Nat
  timeSpec : Nat → TimeSpec
  readable : Nat → Bool
  object : Nat → Option Nat

/-- What the Linux kernel knows a futex by. -/
inductive Key
  | ofAddr (uaddr : Nat)
  | ofObject (object : Nat)
deriving DecidableEq, Repr

/-- Where a thread sleeps: its address for macOS, and its key for Linux. -/
structure Place where
  uaddr : Nat
  key : Option Key
deriving DecidableEq, Repr

/-- A thread asleep in the host. `due` is what the Linux system call would have
returned at once, where the host went to sleep and Linux would not have. -/
structure Sleeper where
  thread : Nat
  timed : Bool
  due : Option Int
deriving DecidableEq, Repr

/-- `woken` are the sleepers that a wake has reached and that have not returned. -/
structure State where
  mem : Memory
  queue : List (Place × Sleeper)
  woken : List Sleeper

def State.init (mem : Memory) : State := ⟨mem, [], []⟩

/-! `sys_futex` up to the host. -/

structure Args where
  uaddrp : Nat
  op : BitVec 32
  val : Nat
  timeoutp : Nat
  uaddr2p : Nat

inductive HostCall
  | wait (uaddr : Nat) (op : BitVec 32) (val : Nat) (timeout : Option TimeSpec)
  | wake (uaddr : Nat) (op : BitVec 32) (val : Nat)
  | requeue (uaddr : Nat) (op : BitVec 32) (val val2 uaddr2 : Nat)
deriving DecidableEq, Repr

def futexPrivateFlag : BitVec 32 := 128

def futexWait (box : Box) (mem : Memory) (uaddr : Nat) (op : BitVec 32) (val timeoutp : Nat) :
    Except Int HostCall :=
  if timeoutp = 0 then .ok (.wait uaddr op val none)
  else match box.bufhost timeoutp 16 8 with
    | none => .error (-Errno.efault.linux)
    | some timeout => .ok (.wait uaddr op val (some (mem.timeSpec timeout)))

/-- The value that it returns itself, or the host call that it makes. -/
def sysFutex (box : Box) (mem : Memory) (a : Args) : Except Int HostCall :=
  if a.uaddrp % 4 ≠ 0 then .error (-Errno.einval.linux)
  else match box.bufhost a.uaddrp 4 4 with
    | none => .error (-Errno.einval.linux)
    | some uaddr =>
      let val2 := a.timeoutp % 2 ^ 32
      let cmd := a.op &&& ~~~futexPrivateFlag
      if cmd = 0 then futexWait box mem uaddr a.op a.val a.timeoutp
      else if cmd = 1 then .ok (.wake uaddr a.op a.val)
      else if cmd = 3 then
        match box.bufhost a.uaddr2p 4 4 with
        | none => .error (-Errno.einval.linux)
        | some uaddr2 => .ok (.requeue uaddr a.op a.val val2 uaddr2)
      else .error (-Errno.einval.linux)

/-- `futex_wait` copies the time itself: where it cannot be read the host faults. -/
def TimeReadable (mem : Memory) (a : Args) : Prop :=
  a.op &&& ~~~futexPrivateFlag = 0 → a.timeoutp ≠ 0 → mem.readable a.timeoutp

/-! The Linux system call. `none` is a thread asleep. -/

namespace Linux

/-- `get_futex_key`: only without the private flag does it look at the page. -/
def key (mem : Memory) (op : BitVec 32) (uaddr : Nat) : Option Key :=
  if op &&& futexPrivateFlag = 0 then (mem.object uaddr).map .ofObject else some (.ofAddr uaddr)

/-- The sleepers that a call on the key is about. -/
def on (k : Key) (place : Place) : Bool := place.key = some k

/-- `val` is an `int` there, and one waiter is woken before it is looked at. -/
def wakes (val : Nat) : Nat := if 0 < val ∧ val < 2 ^ 31 then val else 1

def wait (s : State) (t uaddr : Nat) (op : BitVec 32) (val : Nat) (timeout : Option TimeSpec) :
    Option HostResult × State :=
  if timeout.any fun ts => !ts.valid then (some (.err .einval), s)
  else match key s.mem op uaddr with
    | none => (some (.err .efault), s)
    | some k =>
      if !s.mem.readable uaddr then (some (.err .efault), s)
      else if s.mem.word uaddr ≠ val then (some (.err .eagain), s)
      else (none, { s with queue := s.queue ++ [(⟨uaddr, k⟩, ⟨t, timeout.isSome, none⟩)] })

def wake (s : State) (uaddr : Nat) (op : BitVec 32) (val : Nat) : HostResult × State :=
  match key s.mem op uaddr with
  | none => (.err .efault, s)
  | some k =>
    let (woken, queue) := take (on k) (wakes val) s.queue
    (.ok woken.length, { s with queue := queue, woken := s.woken ++ woken.map Prod.snd })

def requeue (s : State) (uaddr : Nat) (op : BitVec 32) (val val2 uaddr2 : Nat) :
    HostResult × State :=
  if 2 ^ 31 ≤ val ∨ 2 ^ 31 ≤ val2 then (.err .einval, s)
  else match key s.mem op uaddr, key s.mem op uaddr2 with
    | some k, some k2 =>
      let (woken, queue) := take (on k) val s.queue
      let (moved, queue) := take (on k) val2 queue
      (.ok (woken.length + moved.length),
        { s with
          queue := append ⟨uaddr2, some k2⟩ moved queue
          woken := s.woken ++ woken.map Prod.snd })
    | _, _ => (.err .efault, s)

def call (s : State) (t : Nat) : HostCall → Option HostResult × State
  | .wait uaddr op val timeout => wait s t uaddr op val timeout
  | .wake uaddr op val => ((wake s uaddr op val).1, (wake s uaddr op val).2)
  | .requeue uaddr op val val2 uaddr2 =>
    ((requeue s uaddr op val val2 uaddr2).1, (requeue s uaddr op val val2 uaddr2).2)

end Linux

/-! The backend in `futex_linux.c`. -/

namespace FutexLinux

/-- `syscall`: every failure is -1. -/
def syscall : HostResult → Int
  | .ok n => n
  | .err _ => -1

def hostFutexWait (r : HostResult) : Int := syscall r

def hostFutexWake (r : HostResult) : Int := syscall r

def hostFutexRequeue (r : HostResult) : Int := syscall r

end FutexLinux

/-! The backend in `futex_macos.c`, on the host calls it uses. -/

namespace FutexMacos

def intMax : Nat := 2 ^ 31 - 1

def errToLinux : Errno → Int
  | .etimedout => -Errno.etimedout.linux
  | .eagain => -Errno.eagain.linux
  | .efault => -Errno.efault.linux
  | .eintr => -Errno.eagain.linux
  | _ => -Errno.einval.linux

/-- The sleepers that a call on the address is about. -/
def on (uaddr : Nat) (place : Place) : Bool := place.uaddr = uaddr

/-- `os_sync_wait_on_address`, which returns how many wait there when it is woken
or when the word differs. It sleeps where Linux rejects the time or has no key. -/
def osSyncWait (s : State) (t uaddr : Nat) (op : BitVec 32) (val : Nat)
    (timeout : Option TimeSpec) : Option HostResult × State :=
  if !s.mem.readable uaddr then (some (.err .efault), s)
  else if s.mem.word uaddr ≠ val then (some (.ok (waiters (on uaddr) s.queue)), s)
  else
    let due := (Linux.wait s t uaddr op val timeout).1.map HostResult.linux
    let place : Place := ⟨uaddr, Linux.key s.mem op uaddr⟩
    (none, { s with queue := s.queue ++ [(place, ⟨t, timeout.isSome, due⟩)] })

/-- `os_sync_wake_by_address_any`. -/
def osSyncWakeAny (s : State) (uaddr : Nat) : HostResult × State :=
  match pop (on uaddr) s.queue with
  | none => (.err .enoent, s)
  | some (x, queue) => (.ok 0, { s with queue := queue, woken := s.woken ++ [x.2] })

/-- `os_sync_wake_by_address_all`. -/
def osSyncWakeAll (s : State) (uaddr : Nat) : HostResult × State :=
  let (woken, queue) := take (on uaddr) (waiters (on uaddr) s.queue) s.queue
  if woken = [] then (.err .enoent, s)
  else (.ok 0, { s with queue := queue, woken := s.woken ++ woken.map Prod.snd })

def hostFutexWait : HostResult → Int
  | .ok _ => 0
  | .err e => errToLinux e

/-- The loop in `host_futex_wake`, with `n` turns to go. -/
def wakeLoop (s : State) (uaddr : Nat) : Nat → Int → Int × State
  | 0, woken => (woken, s)
  | n + 1, woken =>
    match osSyncWakeAny s uaddr with
    | (.ok _, s) => wakeLoop s uaddr n (woken + 1)
    | (.err .enoent, s) => (woken, s)
    | (.err e, s) => (errToLinux e, s)

def hostFutexWake (s : State) (uaddr val : Nat) : Int × State :=
  if val = 0xFFFFFFFF ∨ intMax ≤ val then
    match osSyncWakeAll s uaddr with
    | (.ok _, s) => (intMax, s)
    | (.err .enoent, s) => (0, s)
    | (.err e, s) => (errToLinux e, s)
  else wakeLoop s uaddr val 0

def hostFutexRequeue (s : State) (uaddr val _val2 _uaddr2 : Nat) : Int × State :=
  hostFutexWake s uaddr val

end FutexMacos

/-- What `sys_futex` returns to the sandbox for a host call, unless it sleeps. The macOS
backend leaves `op` alone. -/
def hostFutex (b : Backend) (s : State) (t : Nat) (c : HostCall) : Option Int × State :=
  match b, c with
  | .linux, .wait uaddr op val timeout =>
    ((Linux.wait s t uaddr op val timeout).1.map FutexLinux.hostFutexWait,
      (Linux.wait s t uaddr op val timeout).2)
  | .linux, .wake uaddr op val =>
    (some (FutexLinux.hostFutexWake (Linux.wake s uaddr op val).1), (Linux.wake s uaddr op val).2)
  | .linux, .requeue uaddr op val val2 uaddr2 =>
    (some (FutexLinux.hostFutexRequeue (Linux.requeue s uaddr op val val2 uaddr2).1),
      (Linux.requeue s uaddr op val val2 uaddr2).2)
  | .macos, .wait uaddr op val timeout =>
    ((FutexMacos.osSyncWait s t uaddr op val timeout).1.map FutexMacos.hostFutexWait,
      (FutexMacos.osSyncWait s t uaddr op val timeout).2)
  | .macos, .wake uaddr _ val =>
    (some (FutexMacos.hostFutexWake s uaddr val).1, (FutexMacos.hostFutexWake s uaddr val).2)
  | .macos, .requeue uaddr _ val val2 uaddr2 =>
    (some (FutexMacos.hostFutexRequeue s uaddr val val2 uaddr2).1,
      (FutexMacos.hostFutexRequeue s uaddr val val2 uaddr2).2)

/-- What `host_futex_wait` returns when the host call that slept ends. -/
def hostFutexWaitEnd : Backend → HostResult → Int
  | .linux => FutexLinux.hostFutexWait
  | .macos => FutexMacos.hostFutexWait

/-- A call that returned: what the code gave the sandbox, and what the Linux
system call returns in that state, where it returns. -/
structure Returned where
  box : Int
  linux : Option Int
deriving DecidableEq, Repr

inductive Label
  | store (mem : Memory)
  | call (t : Nat) (a : Args)
  | wakeup (w : Sleeper)
  | timeout (w : Sleeper)
  | interrupt (w : Sleeper)

/-- The end of a wait that slept, for the sleeper `w`. -/
def waitEnd (b : Backend) (w : Sleeper) (r : HostResult) : Returned :=
  ⟨hostFutexWaitEnd b r, some (w.due.getD r.linux)⟩

/-- The steps, each with the call that it makes return. A thread calls when it is
not asleep, and the sandbox writes its memory at any time. -/
inductive Step (b : Backend) (box : Box) : State → Label × Option Returned → State → Prop
  | store (s : State) (mem : Memory) : Step b box s (.store mem, none) { s with mem := mem }
  | reject {s : State} {t : Nat} {a : Args} {v : Int} (hcall : sysFutex box s.mem a = .error v) :
      Step b box s (.call t a, none) s
  | sleep {s s' : State} {t : Nat} {a : Args} {c : HostCall}
      (hawake : (∀ x ∈ s.queue, x.2.thread ≠ t) ∧ ∀ w ∈ s.woken, w.thread ≠ t)
      (htime : TimeReadable s.mem a) (hcall : sysFutex box s.mem a = .ok c)
      (hhost : hostFutex b s t c = (none, s')) :
      Step b box s (.call t a, none) s'
  | ret {s s' : State} {t : Nat} {a : Args} {c : HostCall} {v : Int}
      (hawake : (∀ x ∈ s.queue, x.2.thread ≠ t) ∧ ∀ w ∈ s.woken, w.thread ≠ t)
      (htime : TimeReadable s.mem a) (hcall : sysFutex box s.mem a = .ok c)
      (hhost : hostFutex b s t c = (some v, s')) :
      Step b box s (.call t a, some ⟨v, (Linux.call s t c).1.map HostResult.linux⟩) s'
  | wakeup {s : State} {w : Sleeper} (hw : w ∈ s.woken) :
      Step b box s (.wakeup w, some (waitEnd b w (.ok 0)))
        { s with woken := s.woken.erase w }
  | timeout {s : State} {k : Place} {w : Sleeper} (hw : (k, w) ∈ s.queue) (htimed : w.timed) :
      Step b box s (.timeout w, some (waitEnd b w (.err .etimedout)))
        { s with queue := s.queue.erase (k, w) }
  | interrupt {s : State} {k : Place} {w : Sleeper} (hw : (k, w) ∈ s.queue) :
      Step b box s (.interrupt w, some (waitEnd b w (.err .eintr)))
        { s with queue := s.queue.erase (k, w) }

end LfiRuntime.Futex
