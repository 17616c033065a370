import LfiRuntime.Box.HostCalls
import LfiRuntime.Mmap.AddrSpace

/-!
The memory operations of `box.c` on one box: the host page table below, the
mapper's record above, the verifier in between.
-/

namespace LfiRuntime.Box

open LfiRuntime.PagedMemory
open LfiRuntime.Config
open LfiRuntime.HostCalls
open LfiRuntime.Mmap

def LFI_PROT_NONE : BitVec 32 := 0
def LFI_PROT_READ : BitVec 32 := 1
def LFI_PROT_WRITE : BitVec 32 := 2
def LFI_PROT_EXEC : BitVec 32 := 4
def LFI_PROT_BTI : BitVec 32 := 16

def LFI_MAP_SHARED : BitVec 32 := 1
def LFI_MAP_PRIVATE : BitVec 32 := 2
def LFI_MAP_FIXED : BitVec 32 := 16
def LFI_MAP_ANONYMOUS : BitVec 32 := 32

/-- `(x & bits) != 0`. -/
def has (x bits : BitVec 32) : Bool := x &&& bits != 0

/-- The fields of `struct LFIBox` that the memory operations read or write. -/
structure LFIBox where
  base : Nat
  size : Nat
  min : Nat
  max : Nat
  mm : AddrSpace
  retaddr : Nat

def hostProt (t : Target) (prot : BitVec 32) : Prot :=
  ⟨has prot LFI_PROT_READ, has prot LFI_PROT_WRITE, has prot LFI_PROT_EXEC,
    t.bti && has prot LFI_PROT_BTI⟩

/-- What a host mapping with the flags `host_flags(flags)` shows. There is no
such mapping when the flags name neither kind of mapping or the file position
is not one. -/
def hostSource (ps : Nat) (flags : BitVec 32) (fd off : Int) : Option Source :=
  if !has flags LFI_MAP_SHARED && !has flags LFI_MAP_PRIVATE then none
  else if has flags LFI_MAP_ANONYMOUS then some .anon
  else if fd < 0 ∨ off < 0 ∨ off % ps ≠ 0 then none
  else if has flags LFI_MAP_SHARED then some (.sharedFile fd off.toNat)
  else some (.privateFile fd off.toNat)

def lfiBoxPtrvalid (box : LFIBox) (addr : Nat) : Bool :=
  box.min ≤ addr && addr < box.max

def lfiBoxBufvalid (box : LFIBox) (addr size : Nat) : Bool :=
  box.min ≤ addr && addr ≤ box.max && size ≤ box.max - addr

section

variable (e : Engine)

def protectmem (h : Host) (start size : Nat) (pr : Prot) : Bool × Host :=
  mprotect e.opts.pagesize h start size pr

def mapmem (h : Host) (start size : Nat) (prot flags : BitVec 32) (fd off : Int) :
    Bool × Host :=
  let ps := e.opts.pagesize
  let m := mmap ps h start size (hostProt e.target prot) (hostSource ps flags fd off)
  if !m.1 then (false, m.2)
  else if e.target.pku then
    let k := mprotect ps m.2 start size (hostProt e.target prot)
    if !k.1 then (false, (munmap ps k.2 start size).2)
    else (true, k.2)
  else (true, m.2)

/-- The test shared by `verify`, `protectverify` and `mapverify`: the mapping
may be made without asking the verifier. -/
def skipsVerifier (prot : BitVec 32) (noVerify : Bool) : Bool :=
  let allowWx := e.opts.allowWx && noVerify
  let w := has prot LFI_PROT_WRITE
  let x := has prot LFI_PROT_EXEC
  !x || (noVerify && !(w && x)) || allowWx

/-- `verify`, for memory that has been mapped by someone else. -/
def verify (h : Host) (base size : Nat) (prot : BitVec 32) : Bool × Host :=
  if skipsVerifier e prot e.opts.noVerify then (true, h)
  else if has prot LFI_PROT_WRITE && has prot LFI_PROT_EXEC then (false, h)
  else HostCalls.lfivVerify e.opts.pagesize e h base size

/-- The result is `true` where the C function returns 0. -/
def protectverify (h : Host) (base size : Nat) (prot : BitVec 32) (noVerify : Bool) :
    Bool × Host :=
  let noVerify := noVerify || e.opts.noVerify
  if skipsVerifier e prot noVerify then
    protectmem e h base size (hostProt e.target prot)
  else if has prot LFI_PROT_WRITE && has prot LFI_PROT_EXEC then (false, h)
  else
    -- the result of this call is not looked at
    let h := (protectmem e h base size Prot.readOnly).2
    let v := HostCalls.lfivVerify e.opts.pagesize e h base size
    if !v.1 then (false, v.2)
    else protectmem e v.2 base size (hostProt e.target prot)

def mapverify (h : Host) (start size : Nat) (prot flags : BitVec 32) (fd off : Int)
    (noVerify : Bool) : Bool × Host :=
  let noVerify := noVerify || e.opts.noVerify
  if skipsVerifier e prot noVerify then mapmem e h start size prot flags fd off
  else if has prot LFI_PROT_WRITE && has prot LFI_PROT_EXEC then (false, h)
  else
    let r := mapmem e h start size LFI_PROT_READ flags fd off
    if !r.1 then (false, r.2)
    else
      let v := HostCalls.lfivVerify e.opts.pagesize e r.2 start size
      if !v.1 then (false, v.2)
      else protectmem e v.2 start size (hostProt e.target prot)

def cbunmap (h : Host) (p : Piece) : Host :=
  let m := mmap e.opts.pagesize h p.start p.len Prot.none (some .anon)
  if m.1 then m.2 else (mprotect e.opts.pagesize m.2 p.start p.len Prot.none).2

/-- `mmap_unmap` with `cbunmap` as its update function. -/
def unmapPieces (box : LFIBox) (h : Host) (addr size : Nat) : LFIBox × Host :=
  let u := box.mm.unmap addr size
  ({ box with mm := u.2.1 }, u.2.2.foldl (cbunmap e) h)

/-- The result `none` is `(lfiptr) -1`. -/
def boxMapanyLocked (box : LFIBox) (h : Host) (size : Nat) (prot flags : BitVec 32)
    (fd off : Int) (noVerify : Bool) : Option Nat × LFIBox × Host :=
  match box.mm.mapAny 0 size ⟨prot, flags, fd, off⟩ with
  | (none, mm) => (none, { box with mm }, h)
  | (some addr, mm) =>
      let box := { box with mm }
      let r := mapverify e h addr size prot flags fd off noVerify
      if !r.1 then (none, unmapPieces e box r.2 addr size)
      else (some addr, box, r.2)

def boxMapatLocked (box : LFIBox) (h : Host) (addr size : Nat) (prot flags : BitVec 32)
    (fd off : Int) : Option Nat × LFIBox × Host :=
  if !lfiBoxBufvalid box addr size then (none, box, h)
  else
    match box.mm.mapAt addr size ⟨prot, flags, fd, off⟩ with
    | (none, mm, _) => (none, { box with mm }, h)
    | (some mAddr, mm, pieces) =>
        let box := { box with mm }
        let h := pieces.foldl (cbunmap e) h
        let r := mapverify e h mAddr size prot flags fd off false
        if !r.1 then (none, unmapPieces e box r.2 mAddr size)
        else (some mAddr, box, r.2)

def lfiBoxMapatRegister (box : LFIBox) (h : Host) (addr size : Nat) (prot flags : BitVec 32)
    (fd off : Int) : Option Nat × LFIBox × Host :=
  if !lfiBoxBufvalid box addr size then (none, box, h)
  else
    match box.mm.mapAt addr size ⟨prot, flags, fd, off⟩ with
    | (none, mm, _) => (none, { box with mm }, h)
    | (some mAddr, mm, pieces) =>
        let box := { box with mm }
        let v := verify e (pieces.foldl (cbunmap e) h) mAddr size prot
        if !v.1 then (none, { box with mm := (box.mm.unmap mAddr size).2.1 }, v.2)
        else (some mAddr, box, v.2)

/-- The results are those of the C function: -1, or the error of
`mmap_protect`. -/
def boxMprotectLocked (box : LFIBox) (h : Host) (addr size : Nat) (prot : BitVec 32)
    (noVerify : Bool) : Int × LFIBox × Host :=
  let pagesize := e.opts.pagesize
  if size = 0 ∨ addr % pagesize ≠ 0 ∨ size % pagesize ≠ 0 then (-1, box, h)
  else if !lfiBoxBufvalid box addr size then (-1, box, h)
  else
    let r := protectverify e h addr size prot noVerify
    if !r.1 then (-1, box, r.2)
    else
      match box.mm.protect addr size prot with
      | (.kOk, mm, _) => (0, { box with mm }, r.2)
      | (.kInval, mm, _) => (1, { box with mm }, r.2)
      | (.kNoMem, mm, _) => (2, { box with mm }, r.2)

def EINVAL : Int := 22
def ENOMEM : Int := 12

def boxMunmapLocked (box : LFIBox) (h : Host) (addr size : Nat) : Int × LFIBox × Host :=
  let pagesize := e.opts.pagesize
  if !lfiBoxBufvalid box addr size || size == 0 || addr % pagesize != 0 then
    (-EINVAL, box, h)
  else
    -- the mask of the source, for a power of two
    let len := (size + pagesize - 1) / pagesize * pagesize
    let m := mmap pagesize h addr len Prot.none (some .anon)
    if !m.1 then (-ENOMEM, box, m.2)
    else
      match box.mm.unmap addr size with
      | (.kOk, mm, _) => (0, { box with mm }, m.2)
      | (_, mm, _) => (-EINVAL, { box with mm }, m.2)

def lfiBoxMapany (box : LFIBox) (h : Host) (size : Nat) (prot flags : BitVec 32)
    (fd off : Int) : Option Nat × LFIBox × Host :=
  boxMapanyLocked e box h size prot flags fd off false

def lfiBoxMapat (box : LFIBox) (h : Host) (addr size : Nat) (prot flags : BitVec 32)
    (fd off : Int) : Option Nat × LFIBox × Host :=
  boxMapatLocked e box h addr size prot flags fd off

def lfiBoxMprotect (box : LFIBox) (h : Host) (addr size : Nat) (prot : BitVec 32) :
    Int × LFIBox × Host :=
  boxMprotectLocked e box h addr size prot false

def lfiBoxMunmap (box : LFIBox) (h : Host) (addr size : Nat) : Int × LFIBox × Host :=
  boxMunmapLocked e box h addr size

/-- The code that returns from the sandbox to its caller. -/
def ret (t : Target) : List UInt8 :=
  if t = arm64 then [0x7e, 0x03, 0x5e, 0xf8, 0xc0, 0x03, 0x3f, 0xd6]
  else if t = riscv64 then [0x83, 0xb0, 0x0a, 0xfe, 0xe7, 0x80, 0x00, 0x00]
  else [0x4c, 0x8d, 0x1d, 0x04, 0x00, 0x00, 0x00, 0x41, 0xff, 0x66, 0xe0]

def lfiBoxInitRet (box : LFIBox) (h : Host) : Bool × LFIBox × Host :=
  let pagesize := e.opts.pagesize
  match boxMapanyLocked e box h pagesize (LFI_PROT_READ ||| LFI_PROT_WRITE)
      (LFI_MAP_ANONYMOUS ||| LFI_MAP_PRIVATE) (-1) 0 false with
  | (none, box, h) => (false, box, h)
  | (some p, box, h) =>
      if !lfiBoxPtrvalid box p then (false, box, h)
      else
        -- on x64 the page is filled with traps first
        let mem :=
          if e.target = x64 ∨ e.target = x64Pku then
            h.mem.writeBytes pagesize p (List.replicate pagesize 0xcc)
          else h.mem
        let mem := mem.writeBytes pagesize p (ret e.target)
        let r := boxMprotectLocked e box { h with mem := mem } p pagesize
          (LFI_PROT_READ ||| LFI_PROT_EXEC) false
        if r.1 ≠ 0 then (false, r.2.1, r.2.2)
        else (true, { r.2.1 with retaddr := p }, r.2.2)

def lfiBoxMquery (box : LFIBox) (addr : Nat) : Option MapInfo :=
  box.mm.queryPage addr

end

/-- An x64 engine whose verifier accepts `nop` only. -/
def nopEngine : Engine where
  target := x64
  opts := ⟨4096, gb 4, false, false, true⟩
  lfivVerify _ bytes := bytes.all (· = 0x90)

/-- A box of that engine with nothing mapped. -/
def emptyBox : LFIBox where
  base := gb 4
  size := gb 4
  min := gb 4 + 4096
  max := gb 8
  mm := ⟨0x100001, 0xfffff, 12, false, 0, [], false⟩
  retaddr := 0

end LfiRuntime.Box
