import LfiRuntime.Core.Config
import LfiRuntime.Lib.Stores
import LfiRuntime.Linux.Align
import LfiRuntime.Linux.ElfSym

/-!
`stack_init` of `thread.c`, which stores the arguments, the environment and the auxiliary
vector at the top of a new thread's stack.

An array of strings is the list of the strings in front of its null pointer. A copy to
the sandbox is the address and the bytes that are stored there.
-/

namespace LfiRuntime.Stack

open LfiRuntime.Align
open LfiRuntime.ByteString
open LfiRuntime.Config
open LfiRuntime.Elf
open LfiRuntime.Mmap
open LfiRuntime.Stores

def ARGV_MAX : Nat := 1024
def ENVP_MAX : Nat := 1024
def ARGV_MAXLEN : Nat := 1024
def ENVP_MAXLEN : Nat := 1024
def STACK_RND_RANGE : Nat := 8192

def LINUX_AT_NULL : Nat := 0
def LINUX_AT_PHDR : Nat := 3
def LINUX_AT_PHENT : Nat := 4
def LINUX_AT_PHNUM : Nat := 5
def LINUX_AT_PAGESZ : Nat := 6
def LINUX_AT_BASE : Nat := 7
def LINUX_AT_FLAGS : Nat := 8
def LINUX_AT_ENTRY : Nat := 9
def LINUX_AT_UID : Nat := 11
def LINUX_AT_EUID : Nat := 12
def LINUX_AT_GID : Nat := 13
def LINUX_AT_EGID : Nat := 14
def LINUX_AT_HWCAP : Nat := 16
def LINUX_AT_SECURE : Nat := 23
def LINUX_AT_RANDOM : Nat := 25
def LINUX_AT_HWCAP2 : Nat := 26
def LINUX_AT_EXECFN : Nat := 31
def LINUX_AT_SYSINFO : Nat := 32
def LINUX_AT_SYSINFO_EHDR : Nat := 33

/-- `sizeof(lfiptr)`. -/
def sizeofLfiptr : Nat := 8

/-- `sizeof(struct AuxvList)`. -/
def sizeofAuxvList : Nat := 19 * 16

def fixed : Nat := sizeofAuxvList + 16 + 8 + 2 * sizeofLfiptr + STACK_RND_RANGE + 32

structure Auxv where
  a_type : Nat
  a_val : Nat
deriving DecidableEq

/-- The two words of 64 bits. -/
def Auxv.words (a : Auxv) : List Nat := [a.a_type % 2 ^ 64, a.a_val % 2 ^ 64]

/-- The fields of `struct LFILinuxThread`, its process and its engine that `stack_init`
reads. The stack is below the end of the address space. -/
structure LFILinuxThread where
  stack : Nat
  stackSize : Nat
  elfinfo : ELFLoadInfo
  opts : LFIOptions
  fits : stack + stackSize < 2 ^ 64

/-- What the host answers. -/
structure HostAnswers where
  stackOffset : UInt16
  random : Vector UInt8 16
  hwcap : Nat
  hwcap2 : Nat

def strnlen (s : Bytes) (maxlen : Nat) : Nat := min (cString s).length maxlen

/-- The counts of the first pass over the strings. -/
structure Counts where
  n : Nat
  used : Nat
  strsLen : Nat

/-- The first pass, over `limit` strings at most. -/
def countStrings (budget maxlen : Nat) : Nat → List Bytes → Counts → Counts
  | 0, _, c => c
  | _ + 1, [], c => c
  | limit + 1, s :: strs, c =>
    let len := strnlen s maxlen
    if c.used + len + 1 + sizeofLfiptr > budget then c
    else
      countStrings budget maxlen limit strs
        ⟨c.n + 1, c.used + (len + 1 + sizeofLfiptr), c.strsLen + (len + 1)⟩

/-- The sandbox addresses of the strings, the stores of their copies, and `count`. -/
structure Copies where
  ptrs : List Nat
  stores : List Store
  count : Nat

/-- The second pass, over the first `n` strings. -/
def copyStrings (strsStart maxlen : Nat) : Nat → List Bytes → Nat → Copies
  | 0, _, count => ⟨[], [], count⟩
  | _ + 1, [], count => ⟨[], [], count⟩
  | n + 1, s :: strs, count =>
    let len := strnlen s maxlen
    let dst := add64 strsStart count
    let rest := copyStrings strsStart maxlen n strs (count + (len + 1))
    ⟨dst :: rest.ptrs, (dst, s.take len) :: (add64 dst len, [0]) :: rest.stores, rest.count⟩

/-- `struct AuxvList`. -/
def auxvList (t : LFILinuxThread) (host : HostAnswers) (execfn randStart : Nat) : List Auxv :=
  [⟨LINUX_AT_SECURE, 0⟩,
    ⟨LINUX_AT_BASE, t.elfinfo.ldbase⟩,
    ⟨LINUX_AT_PHDR, t.elfinfo.elfbase + t.elfinfo.elfphoff⟩,
    ⟨LINUX_AT_PHNUM, t.elfinfo.elfphnum⟩,
    ⟨LINUX_AT_PHENT, t.elfinfo.elfphentsize⟩,
    ⟨LINUX_AT_ENTRY, t.elfinfo.elfentry⟩,
    ⟨LINUX_AT_EXECFN, execfn⟩,
    ⟨LINUX_AT_PAGESZ, t.opts.pagesize⟩,
    ⟨LINUX_AT_HWCAP, host.hwcap⟩,
    ⟨LINUX_AT_HWCAP2, host.hwcap2⟩,
    ⟨LINUX_AT_RANDOM, randStart⟩,
    ⟨LINUX_AT_FLAGS, 0⟩,
    ⟨LINUX_AT_UID, 1000⟩,
    ⟨LINUX_AT_EUID, 1000⟩,
    ⟨LINUX_AT_GID, 1000⟩,
    ⟨LINUX_AT_EGID, 1000⟩,
    ⟨LINUX_AT_SYSINFO, 0⟩,
    ⟨LINUX_AT_SYSINFO_EHDR, 0⟩,
    ⟨LINUX_AT_NULL, 0⟩]

def LFILinuxThread.budget (t : LFILinuxThread) : Nat :=
  if t.stackSize > fixed then t.stackSize - fixed else 0

/-- `stack_top` after the random offset. -/
def LFILinuxThread.stackTop (t : LFILinuxThread) (host : HostAnswers) : Nat :=
  let stackTop := add64 t.stack t.stackSize
  if t.opts.noAslr then stackTop
  else sub64 stackTop (host.stackOffset.toNat % STACK_RND_RANGE)

/-- The first pass over `argv`. -/
def LFILinuxThread.countArgv (t : LFILinuxThread) (argc : Int) (argv : List Bytes) : Counts :=
  countStrings t.budget ARGV_MAXLEN (min argc ARGV_MAX).toNat argv ⟨0, 0, 0⟩

/-- The first pass over `envp`, within what `argv` has left of the budget. -/
def LFILinuxThread.countEnvp (t : LFILinuxThread) (c : Counts) (envp : List Bytes) : Counts :=
  countStrings t.budget ENVP_MAXLEN ENVP_MAX envp { c with n := 0 }

/-- `stack_init`, with the stack pointer and what is stored, in order. -/
def stackInit (t : LFILinuxThread) (argc : Int) (argv envp : List Bytes) (host : HostAnswers) :
    Nat × List Store :=
  let a := t.countArgv argc argv
  let e := t.countEnvp a envp
  let strsStart := truncp (sub64 (t.stackTop host) e.strsLen) 16
  let argvCopies := copyStrings strsStart ARGV_MAXLEN a.n argv 0
  let envpCopies := copyStrings strsStart ENVP_MAXLEN e.n envp argvCopies.count
  let boxArgv := argvCopies.ptrs ++ [0]
  let boxEnvp := envpCopies.ptrs ++ [0]
  let randStart := sub64 strsStart 16
  let auxv := auxvList t host (boxArgv.headD 0) randStart
  let sizeofBoxArgv := (a.n + 1) * sizeofLfiptr
  let sizeofBoxEnvp := (e.n + 1) * sizeofLfiptr
  let stackStart :=
    truncp (sub64 (sub64 (sub64 (sub64 randStart 8) sizeofBoxArgv) sizeofBoxEnvp)
      sizeofAuxvList) 16
  let next := add64 stackStart 8
  let next' := add64 next sizeofBoxArgv
  let next'' := add64 next' sizeofBoxEnvp
  (stackStart,
    argvCopies.stores ++ envpCopies.stores ++
      [(randStart, host.random.toList), (stackStart, wordBytes [a.n]), (next, wordBytes boxArgv),
        (next', wordBytes boxEnvp), (next'', wordBytes (auxv.flatMap Auxv.words))])

end LfiRuntime.Stack
