import Mathlib.Tactic
import LfiRuntime.Lib.Handles
import LfiRuntime.Lib.Runs
import LfiRuntime.Linux.Path

/-!
`fd.c`: the descriptor table of a process, over the descriptors of the host and the
heap with the strings of open directories.
-/

namespace LfiRuntime.Fd

open LfiRuntime.Cwalk
open LfiRuntime.Handles
open LfiRuntime.Path
open LfiRuntime.Runs

def LINUX_NOFILE : Nat := 1024

instance : NeZero LINUX_NOFILE := ⟨by decide⟩

def LINUX_EBADF : Int := 9
def LINUX_ENOMEM : Int := 12
def LINUX_EINVAL : Int := 22
def LINUX_EMFILE : Int := 24

abbrev Slot := Fin LINUX_NOFILE

/-- The address of a string on the heap. -/
abbrev Ptr := Nat

/-- The slot of a descriptor, if it is one. -/
def slotOf (fd : Int) : Option Slot :=
  if h : 0 ≤ fd ∧ fd < LINUX_NOFILE then some ⟨fd.toNat, by omega⟩ else none

structure FDTable where
  fds : Slot → Int
  dirs : Slot → Option Ptr
  flags : Slot → Int
  passthrough : Bool

namespace FDTable

def setFd (t : FDTable) (fd : Slot) (hostFd : Int) : FDTable :=
  { t with fds := Function.update t.fds fd hostFd }

def setDir (t : FDTable) (fd : Slot) (dir : Option Ptr) : FDTable :=
  { t with dirs := Function.update t.dirs fd dir }

def setFlags (t : FDTable) (fd : Slot) (flags : Int) : FDTable :=
  { t with flags := Function.update t.flags fd flags }

/-- The loop that looks for a free slot. -/
def lowestFree (t : FDTable) : Option Slot := Fin.find? fun fd => decide (t.fds fd = -1)

end FDTable

/-- The answers of the host during a call. A descriptor or an address that is not free
is not given out. -/
structure Answers where
  dup : Option Int
  dup2 : Bool
  malloc : Option Ptr

/-- `refs` are the `FDRef`s of the callers, with -1 where one holds nothing. -/
structure Sys (φ : Type*) where
  t : FDTable
  host : Ledger Int φ
  heap : Ledger Ptr Str
  refs : Nat → Int

namespace Sys

variable {φ : Type*}

/-- `dup`, with the open file of `fd` under a new descriptor. -/
def dup (s : Sys φ) (answer : Option Int) (fd : Int) : Option (Int × Sys φ) :=
  match answer, s.host.content fd with
  | some new, some file =>
    if 0 ≤ new ∧ (s.host.content new).isNone then
      some (new, { s with host := s.host.create new file })
    else none
  | _, _ => none

/-- `dup2`, which closes `new` first. -/
def dup2 (s : Sys φ) (answer : Bool) (fd new : Int) : Option (Sys φ) :=
  match answer, s.host.content fd with
  | true, some file =>
    if fd = new then some s
    else some { s with host := (s.host.close new).create new file }
  | _, _ => none

/-- `malloc`. -/
def malloc (s : Sys φ) (answer : Option Ptr) : Option (Ptr × Sys φ) :=
  match answer with
  | some p =>
    if (s.heap.content p).isNone then some (p, { s with heap := s.heap.create p [] }) else none
  | none => none

/-- `free`. -/
def free (s : Sys φ) (dir : Option Ptr) : Sys φ :=
  match dir with
  | none => s
  | some p => { s with heap := s.heap.close p }

/-- The callee is to free `dir`. -/
def takeDir (s : Sys φ) (dir : Option Ptr) : Sys φ :=
  match dir with
  | none => s
  | some p => { s with heap := s.heap.adopt p }

/-- `fdalloc`. The host descriptor is the table's once it has a slot. -/
def fdalloc (s : Sys φ) (hostFd : Int) (dir : Option Ptr) (flags : Int) : Int × Sys φ :=
  let s := s.takeDir dir
  if s.t.passthrough then (hostFd, s.free dir)
  else
    match s.t.lowestFree with
    | some fd =>
      (fd, { s with
        t := ((s.t.setFd fd hostFd).setDir fd dir).setFlags fd flags
        host := s.host.adopt hostFd })
    | none => (-LINUX_EMFILE, s.free dir)

/-- `fdacquire`: the host descriptor, the flags and whether it is a directory. -/
def fdacquire (s : Sys φ) (a : Answers) (fd : Int) : (Int × Int × Bool) × Sys φ :=
  if s.t.passthrough then ((fd, 0, false), s)
  else
    match slotOf fd with
    | none => ((-1, 0, false), s)
    | some fd =>
      if s.t.fds fd = -1 then ((-1, 0, false), s)
      else
        match s.dup a.dup (s.t.fds fd) with
        | none => ((-1, s.t.flags fd, (s.t.dirs fd).isSome), s)
        | some (hostFd, s') => ((hostFd, s.t.flags fd, (s.t.dirs fd).isSome), s')

/-- `fdrelease`. -/
def fdrelease (s : Sys φ) (hostFd : Int) : Sys φ :=
  if s.t.passthrough then s
  else if 0 ≤ hostFd then { s with host := s.host.close hostFd }
  else s

/-- The string for the copy of a slot's directory, if it has one. -/
def mallocDir (s : Sys φ) (a : Answers) (old : Slot) : Option (Option Ptr × Sys φ) :=
  match s.t.dirs old with
  | none => some (none, s)
  | some _ => (s.malloc a.malloc).map fun (p, s) => (some p, s)

/-- The slot's directory is freed. -/
def freeDirOf (s : Sys φ) (fd : Slot) : Sys φ :=
  { s.free (s.t.dirs fd) with t := s.t.setDir fd none }

/-- The end of `fddup2`. -/
def copySlot (s : Sys φ) (old new : Slot) (dir : Option Ptr) : Sys φ :=
  let s :=
    match s.t.dirs old with
    | none => s
    | some p =>
      match dir with
      | none => s
      | some q =>
        { s with
          t := s.t.setDir new (some q)
          heap := s.heap.write q (inBuffer FILENAME_MAX ((s.heap.content p).getD [])) }
  { s with t := s.t.setFlags new (s.t.flags old) }

/-- `fddup2`. -/
def fddup2 (s : Sys φ) (a : Answers) (oldfd newfd : Int) : Int × Sys φ :=
  match slotOf oldfd with
  | none => (-LINUX_EBADF, s)
  | some old =>
    if newfd < -1 ∨ LINUX_NOFILE ≤ newfd then (-LINUX_EBADF, s)
    else if s.t.fds old = -1 then (-LINUX_EBADF, s)
    else if oldfd = newfd then (newfd, s)
    else
      match s.mallocDir a old with
      | none => (-LINUX_ENOMEM, s)
      | some (dir, s) =>
        match slotOf newfd with
        | none =>
          -- the range check has left -1 only
          match s.t.lowestFree with
          | none => (-LINUX_EMFILE, s.free dir)
          | some new =>
            match s.dup a.dup (s.t.fds old) with
            | none => (-LINUX_EINVAL, s.free dir)
            | some (knewfd, s) =>
              (new, { s with t := s.t.setFd new knewfd }.copySlot old new dir)
        | some new =>
          if s.t.fds new = -1 then
            match s.dup a.dup (s.t.fds old) with
            | none => (-LINUX_EINVAL, s.free dir)
            | some (knewfd, s) =>
              (newfd, ({ s with t := s.t.setFd new knewfd }.freeDirOf new).copySlot old new dir)
          else
            match s.dup2 a.dup2 (s.t.fds old) (s.t.fds new) with
            | none => (-LINUX_EINVAL, s.free dir)
            | some s => (newfd, (s.freeDirOf new).copySlot old new dir)

/-- What `fdclose` and `fdfree` do with a slot that is occupied. -/
def closeSlot (s : Sys φ) (fd : Slot) : Sys φ :=
  { s with host := s.host.close (s.t.fds fd), t := s.t.setFd fd (-1) }.freeDirOf fd

/-- `fdclose`. -/
def fdclose (s : Sys φ) (fd : Int) : Bool × Sys φ :=
  if s.t.passthrough then (true, s)
  else
    match slotOf fd with
    | none => (false, s)
    | some fd =>
      if s.t.fds fd = -1 then (false, s)
      else
        let s := s.closeSlot fd
        (true, { s with t := s.t.setFlags fd 0 })

/-- One of the descriptors 0, 1 and 2 that `fdinit` sets up. -/
def initStd (s : Sys φ) (fd : Slot) (answer : Option Int) : Sys φ :=
  match s.dup answer fd with
  | none => s
  | some (hostFd, s) => { s with t := s.t.setFd fd hostFd }

/-- `fdinit`, with the answers to its calls of `dup`. -/
def fdinit (s : Sys φ) (sysMinimal sysPassthrough : Bool) (d₀ d₁ d₂ : Option Int) : Sys φ :=
  let s := { s with t.fds := fun _ => -1 }
  let s := if sysMinimal then s else ((s.initStd 0 d₀).initStd 1 d₁).initStd 2 d₂
  { s with t.passthrough := sysPassthrough }

/-- The body of the loop of `fdfree`. -/
def freeSlot (s : Sys φ) (fd : Slot) : Sys φ :=
  if s.t.fds fd = -1 then s else s.closeSlot fd

/-- `fdfree`. -/
def fdfree (s : Sys φ) : Sys φ := (List.finRange LINUX_NOFILE).foldl freeSlot s

end Sys

/-- The calls on a table, and what the rest of the program does with descriptors and
strings of its own. An `FDRef` is a caller's variable. -/
inductive Call (φ : Type*)
  | fdalloc (hostFd : Int) (dir : Option Ptr) (flags : Int)
  | fdacquire (ref : Nat) (fd : Int)
  | fdrelease (ref : Nat)
  | fddup2 (oldfd newfd : Int)
  | fdclose (fd : Int)
  | fdfree
  | openFile (hostFd : Int) (file : φ)
  | closeFile (hostFd : Int)
  | mallocDir (p : Ptr) (dir : Str)
  | freeDir (p : Ptr)

variable {φ : Type*}

/-- The result of a call, as its callers return it, and the state after it. -/
def Sys.exec (s : Sys φ) (a : Answers) : Call φ → Int × Sys φ
  | .fdalloc hostFd dir flags => s.fdalloc hostFd dir flags
  | .fdacquire ref fd =>
    let ((hostFd, _), s) := s.fdacquire a fd
    (hostFd, { s with refs := Function.update s.refs ref hostFd })
  | .fdrelease ref =>
    (0, { s.fdrelease (s.refs ref) with refs := Function.update s.refs ref (-1) })
  | .fddup2 oldfd newfd => s.fddup2 a oldfd newfd
  | .fdclose fd =>
    let (closed, s) := s.fdclose fd
    (if closed then 0 else -LINUX_EBADF, s)
  | .fdfree => (0, s.fdfree)
  | .openFile hostFd file => (0, { s with host := s.host.issue hostFd file })
  | .closeFile hostFd => (0, { s with host := s.host.drop hostFd })
  | .mallocDir p dir => (0, { s with heap := s.heap.issue p dir })
  | .freeDir p => (0, { s with heap := s.heap.drop p })

/-- Who may hold a host descriptor. -/
inductive Holder
  | slot (fd : Slot)
  | ref (r : Nat)
deriving DecidableEq

/-- A host descriptor, where -1 is none. -/
def handle (fd : Int) : Option Int := if fd = -1 then none else some fd

/-- Who holds which host descriptor. -/
def Sys.hostOwner (s : Sys φ) : Holder → Option Int
  | .slot fd => handle (s.t.fds fd)
  | .ref r => handle (s.refs r)

/-- Who holds which string; `dir` is the local variable of the call that runs. -/
def Sys.dirOwner (s : Sys φ) (dir : Option Ptr) : Option Slot → Option Ptr
  | none => dir
  | some fd => s.t.dirs fd

/-- What callers keep to: what they give away is open and theirs, an `FDRef` that
holds something is not set again, and they leave the table's own things alone. A
directory string lies in a buffer of `FILENAME_MAX` bytes. -/
def Admits (s : Sys φ) : Call φ → Prop
  | .fdalloc hostFd dir _ =>
    (0 ≤ hostFd ∧ (s.host.content hostFd).isSome ∧ ∀ x, s.hostOwner x ≠ some hostFd) ∧
      ∀ p, dir = some p → (∃ str, s.heap.content p = some str ∧ str.length < FILENAME_MAX) ∧
        ∀ fd, s.t.dirs fd ≠ some p
  | .fdacquire ref _ => s.refs ref = -1
  | .openFile hostFd _ => s.host.content hostFd = none
  | .closeFile hostFd => ∀ x, s.hostOwner x ≠ some hostFd
  | .mallocDir p _ => s.heap.content p = none
  | .freeDir p => ∀ fd, s.t.dirs fd ≠ some p
  | .fdrelease _ | .fddup2 _ _ | .fdclose _ | .fdfree => True

/-- A call with what the host has answered and what it has returned. -/
structure Event (φ : Type*) where
  call : Call φ
  answers : Answers
  result : Int

def Step (s : Sys φ) (e : Event φ) (s' : Sys φ) : Prop :=
  Admits s e.call ∧ s.exec e.answers e.call = (e.result, s')

/-- The state that `fdinit` finds: a table from `calloc`, and no references. -/
structure Blank (s : Sys φ) : Prop where
  host : Keeps s.host (fun _ : Holder => none)
  heap : Keeps s.heap (fun _ : Option Slot => none)
  dirs : ∀ fd, s.t.dirs fd = none
  refs : ∀ r, s.refs r = -1
  passthrough : s.t.passthrough = false

/-- A table after `fdinit`. -/
def Start (s : Sys φ) : Prop :=
  ∃ s₀ sysMinimal d₀ d₁ d₂, Blank s₀ ∧ s = s₀.fdinit sysMinimal false d₀ d₁ d₂

end LfiRuntime.Fd
