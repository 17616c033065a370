import LfiRuntime.Boxmap.ExtAlloc
import LfiRuntime.Core.Config

/-!
The allocator of box addresses in `boxmap.c`: a few reserved regions, each with
an extent allocator of its own. Addresses are the natural numbers of 64-bit
values, and sums of them wrap.
-/

namespace LfiRuntime.Boxmap

open LfiRuntime.Config

def ADDR_REGION_MAX : Nat := 16

structure AddrRegion where
  base : Nat
  size : Nat
  active : Nat
  alloc : ExtAlloc
  mapbase : Nat
  mapsize : Nat
deriving DecidableEq, Repr

structure BoxMapOptions where
  chunksize : Nat
  guardsize : Nat
deriving DecidableEq, Repr

structure BoxMap where
  regions : List AddrRegion
  opts : BoxMapOptions
deriving DecidableEq, Repr

def truncp (addr align : Nat) : Nat := addr - addr % align

def ceilp (addr align : Nat) : Nat :=
  let rem := addr % align
  if rem = 0 then addr else (addr + (align - rem)) % 2 ^ 64

def boxmapNew (opts : BoxMapOptions) : BoxMap := ⟨[], opts⟩

/-- A region with nothing handed out. -/
def regionNew (base size c mapbase mapsize : Nat) : AddrRegion :=
  ⟨base, size, 0, extallocNew base size c, mapbase, mapsize⟩

/-- What the host will answer: the addresses of the reservations still to be
asked for, and whether the allocations and the fixed mapping of each
`addregion` succeed. -/
structure Host where
  reserved : List (Option Nat)
  regionOk : List Bool
deriving DecidableEq, Repr

/-- `mmap(NULL, size)`. The host answers with a range of addresses that exists
and does not begin at 0. -/
def mmapAny (h : Host) (size : Nat) : Option Nat × Host :=
  let p := h.reserved.head?.join
  (p.filter fun p => 0 < p && p + size < 2 ^ 64, { h with reserved := h.reserved.tail })

/-- `reserve`, which halves `size` until the host has room: the size got and
its address, or `none` for 0. The number of halvings left is at most 64. -/
def reserve (h : Host) (threshold : Nat) : Nat → Nat → Option (Nat × Nat) × Host
  | 0, _ => (none, h)
  | fuel + 1, size =>
      match mmapAny h size with
      | (some p, h) => if size < threshold then (none, h) else (some (size, p), h)
      | (none, h) =>
          let size := size / 2
          if size < threshold then (none, h) else reserve h threshold fuel size

def addregion (map : BoxMap) (h : Host) (base size : Nat) : Option BoxMap × Host :=
  if map.regions.length ≥ ADDR_REGION_MAX then (none, h)
  else
    let start := (base + map.opts.guardsize) % 2 ^ 64
    let stop := (2 ^ 64 + base + size - map.opts.guardsize) % 2 ^ 64
    let alignbase := ceilp start map.opts.chunksize
    let alignsize := (2 ^ 64 + truncp stop map.opts.chunksize - alignbase) % 2 ^ 64
    let ok := h.regionOk.headD true
    let h := { h with regionOk := h.regionOk.tail }
    if !ok then (none, h)
    else
      let region := regionNew alignbase alignsize map.opts.chunksize base size
      (some { map with regions := map.regions ++ [region] }, h)

/-- The loop of `boxmap_reserve`, `fuel` turns before its end. -/
def reserveRegions (min want need : Nat) :
    Nat → BoxMap → Host → Nat → Nat → Nat → Bool × BoxMap × Host
  | 0, map, h, _, _, totalgot => (decide (totalgot ≥ need), map, h)
  | fuel + 1, map, h, total, size, totalgot =>
      match reserve h min 64 size with
      | (none, h) => (decide (totalgot ≥ need), map, h)
      | (some (got, base), h) =>
          let totalgot := totalgot + got
          let total := (2 ^ 64 + total - got) % 2 ^ 64
          match addregion map h base got with
          | (none, h) => (false, map, h)
          | (some map, h) =>
              if totalgot ≥ want then (decide (totalgot ≥ need), map, h)
              else reserveRegions min want need fuel map h total total totalgot

def boxmapReserve (map : BoxMap) (h : Host) (size : Nat) : Bool × BoxMap × Host :=
  if size = 0 then
    let total := tb 256
    let size := tb 255
    let min := gb 32
    reserveRegions min size min ADDR_REGION_MAX map h total size 0
  else reserveRegions size size size ADDR_REGION_MAX map h size size 0

def boxmapActive (map : BoxMap) : Nat := (map.regions.map AddrRegion.active).sum

/-- The loop of `allocslot` over the regions. -/
def allocslot : List AddrRegion → Nat → Nat × List AddrRegion
  | [], _ => (0, [])
  | region :: regions, size =>
      let p := extallocAlloc region.alloc size
      if p.1 ≠ 0 then
        (p.1, { region with alloc := p.2, active := region.active + 1 } :: regions)
      else
        let rest := allocslot regions size
        (rest.1, { region with alloc := p.2 } :: rest.2)

/-- One turn of the loop of `deleteslot`. -/
def deleteIn (base size : Nat) (region : AddrRegion) : AddrRegion :=
  let vabase := region.base
  if base ≥ vabase ∧ base < (vabase + region.size) % 2 ^ 64 then
    { region with
      alloc := extallocFree region.alloc base size
      active := region.active - 1 }
  else region

def deleteslot (regions : List AddrRegion) (base size : Nat) : List AddrRegion :=
  regions.map (deleteIn base size)

def boxmapAddspace (map : BoxMap) (size : Nat) : Nat × BoxMap :=
  let r := allocslot map.regions size
  (r.1, { map with regions := r.2 })

def boxmapRmspace (map : BoxMap) (space size : Nat) : BoxMap :=
  { map with regions := deleteslot map.regions space size }

end LfiRuntime.Boxmap
