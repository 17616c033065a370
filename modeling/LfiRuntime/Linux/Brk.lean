import LfiRuntime.Box.MapSpec
import LfiRuntime.Linux.Align
import LfiRuntime.Linux.ElfSym

/-!
`sys_brk.c`, and the end of `proc_load` that reserves the region of the break.
-/

namespace LfiRuntime.Brk

open LfiRuntime.Align
open LfiRuntime.Box
open LfiRuntime.Config
open LfiRuntime.Elf
open LfiRuntime.HostCalls
open LfiRuntime.Mmap
open LfiRuntime.PagedMemory

/-- The fields of `struct LFILinuxOptions` for the break. -/
structure LFILinuxOptions where
  brkControl : Bool
  brkSize : Nat

def BRKMAXSIZE : Nat := mb 512

def LFILinuxOptions.brkmaxsize (o : LFILinuxOptions) : Nat :=
  if o.brkControl then o.brkSize else BRKMAXSIZE

def MAP_PROT : BitVec 32 := LFI_PROT_READ ||| LFI_PROT_WRITE

variable (e : Engine) (o : LFILinuxOptions)

/-- `proc_load`, from the assignment of `brkbase` on. -/
def reserveBrk (p : LFILinuxProc) : Bool × LFILinuxProc :=
  let p := { p with brkbase := p.elfinfo.lastva, brksize := 0 }
  if o.brkmaxsize > 0 then
    let u := lfiBoxMapat e p.box p.host p.brkbase o.brkmaxsize LFI_PROT_NONE MAP_FLAGS (-1) 0
    (u.1.isSome, { p with box := u.2.1, host := u.2.2 })
  else (true, p)

/-- `sys_brk`. The result `none` is -1. -/
def sysBrk (p : LFILinuxProc) (addr : Nat) : Option Nat × LFILinuxProc :=
  if addr ≠ 0 ∧ lfiBoxPtrvalid p.box addr = false then (none, p)
  else
    let brkp := if addr ≠ 0 then addr else add64 p.brkbase p.brksize
    let brkp := if brkp < p.brkbase then p.brkbase else brkp
    let brkp :=
      if brkp ≥ add64 p.brkbase o.brkmaxsize then add64 p.brkbase o.brkmaxsize else brkp
    let newsize := sub64 brkp p.brkbase
    if newsize = p.brksize then (some brkp, p)
    else
      let next := ceilp (add64 p.brkbase p.brksize) e.opts.pagesize
      let newEnd := ceilp (add64 p.brkbase newsize) e.opts.pagesize
      if brkp > add64 p.brkbase p.brksize ∧ newEnd > next then
        let u := lfiBoxMapat e p.box p.host next (sub64 newEnd next) MAP_PROT MAP_FLAGS (-1) 0
        let p := { p with box := u.2.1, host := u.2.2 }
        if u.1.isNone then (none, p)
        else (some (add64 p.brkbase newsize), { p with brksize := newsize })
      else (some (add64 p.brkbase newsize), { p with brksize := newsize })

end LfiRuntime.Brk
