import LfiRuntime.Mmap.RangeMap
import Mathlib.Tactic

/-!
The memory mapper of a box: `addr_space.h` and `mmap.cpp`. Addresses and page
numbers are the natural numbers of 64-bit values, and sums of them wrap.
-/

namespace LfiRuntime.Mmap

open LfiRuntime.RangeMap

structure MapInfo where
  prot : BitVec 32
  flags : BitVec 32
  fd : Int
  offset : Int
deriving DecidableEq, Repr

inductive Error
  | kOk
  | kInval
  | kNoMem
deriving DecidableEq, Repr

/-- `a + b` in 64 bits. -/
def add64 (a b : Nat) : Nat := (a + b) % 2 ^ 64

/-- `a - b` in 64 bits. -/
def sub64 (a b : Nat) : Nat := (2 ^ 64 + a - b) % 2 ^ 64

theorem add64_eq {a b : Nat} (h : a + b < 2 ^ 64) : add64 a b = a + b := Nat.mod_eq_of_lt h

theorem sub64_eq {a b : Nat} (hle : b ≤ a) (hlt : a < 2 ^ 64) : sub64 a b = a - b := by
  rw [sub64, Nat.add_sub_assoc hle, Nat.add_mod_left, Nat.mod_eq_of_lt (by omega)]

/-- A piece handed to an update function: start, length and what was there. -/
structure Piece where
  start : Nat
  len : Nat
  info : MapInfo
deriving DecidableEq, Repr

structure AddrSpace where
  base : Nat
  len : Nat
  p2pagesize : Nat
  aslr : Bool
  randState : UInt64
  regions : List (Entry Nat MapInfo)
  /-- `check_in_region` has called `std::terminate`. -/
  terminated : Bool
deriving DecidableEq, Repr

namespace AddrSpace

variable (s : AddrSpace)

def toPage (addr : Nat) : Nat := addr >>> s.p2pagesize

def toPageCeil (len : Nat) : Nat :=
  let pages := len >>> s.p2pagesize
  if len % 2 ^ s.p2pagesize ≠ 0 then pages + 1 else pages

def toAddr (page : Nat) : Nat := page <<< s.p2pagesize % 2 ^ 64

def isValid (start len : Nat) : Bool :=
  if start < s.base then false
  else if s.len < start - s.base then false
  else len ≤ s.len - (start - s.base)

def checkInRegion (addr len : Nat) : AddrSpace :=
  if s.isValid (s.toPage addr) (s.toPageCeil len) then s
  else { s with terminated := true }

/-- `init`, from the object `new` left in any state. -/
def init (start len pagesize : Nat) : Option AddrSpace :=
  if pagesize = 0 ∨ pagesize &&& (pagesize - 1) ≠ 0 then none
  else
    let p2 := Nat.log2 pagesize
    let s : AddrSpace := ⟨0, 0, p2, false, 0, [], false⟩
    some { s with base := s.toPage start, len := s.toPageCeil len }

def enableAslr (seed : UInt64) : AddrSpace :=
  { s with aslr := true, randState := seed }

/-- splitmix64. -/
def nextRand : UInt64 × AddrSpace :=
  let state := s.randState + 0x9E3779B97F4A7C15
  let z := (state ^^^ (state >>> 30)) * 0xBF58476D1CE4E5B9
  let z := (z ^^^ (z >>> 27)) * 0x94D049BB133111EB
  (z ^^^ (z >>> 31), { s with randState := state })

def randBelow (n : Nat) : Nat × AddrSpace :=
  let r := s.nextRand
  (r.1.toNat % n, r.2)

/-- The number of start pages a gap offers to a mapping of `pages` pages. -/
def positions (pages : Nat) (gap : Nat × Nat) : Nat :=
  if pages ≤ gap.2 - gap.1 then gap.2 - gap.1 - pages + 1 else 0

/-- The second loop of `find_free`: the start page with index `idx`. -/
def pick (pages : Nat) : Nat → List (Nat × Nat) → Option Nat
  | _, [] => none
  | idx, gap :: gaps =>
      if gap.2 - gap.1 < pages then pick pages idx gaps
      else if idx < positions pages gap then some (gap.1 + idx)
      else pick pages (idx - positions pages gap) gaps

def findFree (pages : Nat) : Option Nat × AddrSpace :=
  let gaps := getGaps s.regions s.base (add64 s.base s.len)
  if !s.aslr then
    ((gaps.find? fun gap => pages ≤ gap.2 - gap.1).map Prod.fst, s)
  else
    let total := (gaps.map (positions pages)).sum % 2 ^ 64
    if total = 0 then (none, s)
    else
      let r := s.randBelow total
      (pick pages r.1 gaps, r.2)

/-- Record a mapping of `pages` pages at page `start`. -/
def record (start pages : Nat) (info : MapInfo) : AddrSpace :=
  { s with regions := insert s.regions start (add64 start pages) info }

/-- `map_any`; `none` is the result `(uintptr_t) -1`. -/
def mapAny (hint len : Nat) (info : MapInfo) : Option Nat × AddrSpace :=
  if len = 0 then (none, s)
  else
    let pages := s.toPageCeil len
    if pages = 0 then (none, s)
    else if hint ≠ 0 ∧ hint % 2 ^ s.p2pagesize = 0 ∧ s.isValid (s.toPage hint) pages ∧
        !overlaps s.regions (s.toPage hint) (add64 (s.toPage hint) pages) then
      let start := s.toPage hint
      (some (s.toAddr start),
        (s.record start pages info).checkInRegion (s.toAddr start) len)
    else
      match s.findFree pages with
      | (none, s) => (none, s)
      | (some start, s) =>
          (some (s.toAddr start),
            (s.record start pages info).checkInRegion (s.toAddr start) len)

/-- The part of an entry that lies in the pages `[start, stop)`, as a byte
range. -/
def clip (start stop : Nat) (e : Entry Nat MapInfo) : Piece :=
  let cs := max e.start start
  let ce := min e.stop stop
  ⟨s.toAddr cs, sub64 (s.toAddr ce) (s.toAddr cs), e.val⟩

/-- `unmap`, with the pieces it passes to its update function. -/
def unmap (addr len : Nat) : Error × AddrSpace × List Piece :=
  if addr % 2 ^ s.p2pagesize ≠ 0 ∨ len = 0 then (.kInval, s, [])
  else
    let start := s.toPage addr
    let pages := s.toPageCeil len
    if pages = 0 then (.kInval, s, [])
    else if !s.isValid start pages then (.kInval, s, [])
    else
      let stop := add64 start pages
      (.kOk, { s with regions := remove s.regions start stop },
        (getOverlapping s.regions start stop).map (s.clip start stop))

/-- `map_at`, with the pieces it passes to its update function. -/
def mapAt (addr len : Nat) (info : MapInfo) : Option Nat × AddrSpace × List Piece :=
  if addr % 2 ^ s.p2pagesize ≠ 0 ∨ len = 0 then (none, s, [])
  else
    let start := s.toPage addr
    let pages := s.toPageCeil len
    if pages = 0 then (none, s, [])
    else if !s.isValid start pages then (none, s, [])
    else
      let out := s.unmap addr len
      (some addr, (out.2.1.record start pages info).checkInRegion addr len, out.2.2)

def queryPage (addr : Nat) : Option MapInfo :=
  (find s.regions (s.toPage addr)).map Entry.val

/-- The loop body of `protect` on one overlapping entry. -/
def protectEntry (start stop : Nat) (prot : BitVec 32)
    (regions : List (Entry Nat MapInfo)) (e : Entry Nat MapInfo) :
    List (Entry Nat MapInfo) :=
  let cs := max e.start start
  let ce := min e.stop stop
  insert (remove regions cs ce) cs ce { e.val with prot := prot }

/-- `protect`, with the pieces it passes to its update function. -/
def protect (addr len : Nat) (prot : BitVec 32) : Error × AddrSpace × List Piece :=
  if addr % 2 ^ s.p2pagesize ≠ 0 ∨ len = 0 then (.kInval, s, [])
  else
    let start := s.toPage addr
    let pages := s.toPageCeil len
    if pages = 0 then (.kInval, s, [])
    else if !s.isValid start pages then (.kInval, s, [])
    else
      let stop := add64 start pages
      let overlapping := getOverlapping s.regions start stop
      (.kOk,
        { s with regions := overlapping.foldl (protectEntry start stop prot) s.regions },
        overlapping.map (s.clip start stop))

end AddrSpace

end LfiRuntime.Mmap
