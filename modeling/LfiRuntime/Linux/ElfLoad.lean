import LfiRuntime.Linux.Brk

/-!
`elfload.c` and `proc_load`: how the segments of a program, and of its interpreter, get
into the box.
-/

namespace LfiRuntime.Elf

open LfiRuntime.Align
open LfiRuntime.Box
open LfiRuntime.Brk
open LfiRuntime.ByteString
open LfiRuntime.Config
open LfiRuntime.HostCalls
open LfiRuntime.Mmap
open LfiRuntime.PagedMemory

def CODE_MAX : Nat := 1 * 1024 * 1024 * 1024

/-- The values of `map_op` that are used. -/
inductive MapOp
  | elfMap
  | elfRemap
deriving DecidableEq

/-- What the loader gets from the host: `getpagesize`, whether the file asks for BTI on a
processor that has it, and whether the `malloc` for its program headers succeeds. -/
structure LoadEnv where
  hostPagesize : Nat
  bti : Buf → Bool
  mallocOk : Buf → Bool

def pflags (prot : Nat) (bti : Bool) : BitVec 32 :=
  let p := (if prot &&& PF_R ≠ 0 then LFI_PROT_READ else 0) |||
    (if prot &&& PF_W ≠ 0 then LFI_PROT_WRITE else 0) |||
    (if prot &&& PF_X ≠ 0 then LFI_PROT_EXEC else 0)
  if bti = true ∧ prot &&& PF_X ≠ 0 then p ||| LFI_PROT_BTI else p

def elfCheck (ehdr : Ehdr) : Bool :=
  ehdr.e_ident.take 4 = ELFMAG && ehdr.e_ident[EI_CLASS]? = some ELFCLASS64 &&
    ehdr.e_version = EV_CURRENT

/-- An offset as an `off_t`. -/
def offT (off : Nat) : Int := (BitVec.ofNat 64 off).toInt

/-- The host writes to the memory of the box. -/
def hostWrite (e : Engine) (h : Host) (a : Nat) (bytes : Bytes) : Host :=
  { h with mem := h.mem.writeBytes e.opts.pagesize a bytes }

/-- `mremap` to a fixed address, of memory with the given bytes. It unmaps what is there first. -/
def mremap (ps : Nat) (h : Host) (start len : Nat) (bytes : Nat → UInt8) : Bool × Host :=
  let c := call h
  if c.1.isOk then
    (true, { c.2 with mem :=
      { h.mem with
        pages := fun p =>
          if InSpan ps start len p then some ⟨Prot.readWrite, .priv⟩ else h.mem.pages p
        priv := fun a => if InSpan ps start len (a / ps) then bytes (a - start) else h.mem.priv a
        lazy := fun p => if InSpan ps start len p then none else h.mem.lazy p } })
  else (false, { c.2 with mem := h.mem.munmap ps start (c.1.extent ps len) })

def SAFE_BYTE : UInt8 := 0xcc

def sanitize (e : Engine) (h : Host) (p sz : Nat) (prot : BitVec 32) : Host :=
  if !has prot LFI_PROT_EXEC then h
  else if e.target = x64 ∨ e.target = x64Pku then hostWrite e h p (List.replicate sz SAFE_BYTE)
  else h

/-- The arguments of `buf_read_elfseg` but for the process and the file. -/
structure SegArgs where
  start : Nat
  offset : Nat
  stop : Nat
  p_offset : Nat
  filesz : Nat
  memsz : Nat
  prot : BitVec 32
  p_align : Nat

variable (e : Engine)

/-- `buf_read_elfseg` for `ELF_MAP`, from a file that has a descriptor. -/
def mapFileSeg (box : LFIBox) (h : Host) (s : SegArgs) (buf : Buf) : Bool × LFIBox × Host :=
  let u := lfiBoxMapat e box h s.start (sub64 s.stop s.start) s.prot LFI_MAP_PRIVATE buf.fd
    (offT (truncp s.p_offset s.p_align))
  if u.1.isNone then (false, u.2)
  else if s.memsz > s.filesz then
    if !has s.prot LFI_PROT_WRITE then (false, u.2)
    else
      let bssStart := add64 (add64 s.start s.offset) s.filesz
      let bssRest := ceilp bssStart e.opts.pagesize
      let h := hostWrite e u.2.2 bssStart (List.replicate (sub64 bssRest bssStart) 0)
      if bssRest < s.stop then
        let v := lfiBoxMapat e u.2.1 h bssRest (sub64 s.stop bssRest) s.prot MAP_FLAGS (-1) 0
        (v.1.isSome, v.2)
      else (true, u.2.1, h)
  else (true, u.2)

/-- `buf_read_elfseg` for `ELF_REMAP`. -/
def remapSeg (env : LoadEnv) (box : LFIBox) (h : Host) (s : SegArgs) (buf : Buf) :
    Bool × LFIBox × Host :=
  let size := sub64 s.stop s.start
  let foff := truncp s.p_offset s.p_align
  let mapped := ceilp buf.size env.hostPagesize
  if mapped < buf.size ∨ foff > mapped ∨ size > mapped - foff then (false, box, h)
  else
    let rm := mremap e.opts.pagesize h s.start size fun i => buf.data.getD (foff + i) 0
    if !rm.1 then (false, box, rm.2)
    else
      let u := lfiBoxMapatRegister e box rm.2 s.start size s.prot MAP_FLAGS (-1) 0
      -- the mapping that puts the file's data back is outside of the box
      let old := call u.2.2
      if !old.1.isOk then (false, u.2.1, old.2)
      else if u.1.isNone then (false, u.2.1, old.2)
      else
        let v := lfiBoxMprotect e u.2.1 old.2 s.start size s.prot
        (decide (v.1 ≥ 0), v.2)

/-- `buf_read_elfseg` for `ELF_MAP`, from a file in memory. -/
def copySeg (box : LFIBox) (h : Host) (s : SegArgs) (buf : Buf) (pagesize : Nat) :
    Bool × LFIBox × Host :=
  let size := sub64 s.stop s.start
  let u := lfiBoxMapat e box h s.start size (LFI_PROT_READ ||| LFI_PROT_WRITE) MAP_FLAGS (-1) 0
  match u.1 with
  | none => (false, u.2)
  | some p =>
    let h := sanitize e u.2.2 p pagesize s.prot
    let h := sanitize e h (sub64 s.stop pagesize) pagesize s.prot
    -- there is a result for every argument
    let bytes := (bufRead buf s.filesz s.p_offset).getD []
    let h := hostWrite e h (add64 s.start s.offset) bytes
    if bytes.length ≠ s.filesz then (false, u.2.1, h)
    else
      let v := lfiBoxMprotect e u.2.1 h s.start size s.prot
      (decide (v.1 ≥ 0), v.2)

def bufReadElfseg (env : LoadEnv) (box : LFIBox) (h : Host) (s : SegArgs) (buf : Buf)
    (pagesize : Nat) (mapOp : MapOp) : Bool × LFIBox × Host :=
  if mapOp = .elfRemap ∧ has s.prot LFI_PROT_EXEC = true then remapSeg e env box h s buf
  else if buf.fd ≠ -1 then mapFileSeg e box h s buf
  else copySeg e box h s buf pagesize

/-- The box, and the variables of `elf_load_one`, between two segments. -/
structure LoadState where
  box : LFIBox
  host : Host
  base : Nat
  first : Nat
  last : Nat

/-- The loop of `elf_load_one` over the program headers. -/
def loadSegments (env : LoadEnv) (elf : Buf) (pagesize : Nat) (mapOp : MapOp) (elfbase : Nat) :
    List Phdr → LoadState → Bool × LoadState
  | [], s => (true, s)
  | p :: phdrs, s =>
    if p.p_type ≠ PT_LOAD ∨ p.p_memsz = 0 then
      loadSegments env elf pagesize mapOp elfbase phdrs s
    else if p.p_align = 0 ∨ p.p_align &&& (p.p_align - 1) ≠ 0 ∨ p.p_align % pagesize ≠ 0 then
      (false, s)
    else if p.p_memsz > 2 ^ 64 - 1 - p.p_vaddr then (false, s)
    else
      let start := truncp p.p_vaddr p.p_align
      let stop := ceilp (p.p_vaddr + p.p_memsz) p.p_align
      let offset := sub64 p.p_vaddr start
      if p.p_memsz < p.p_filesz then (false, s)
      else if stop ≤ start ∨ start ≥ CODE_MAX ∨ stop ≥ CODE_MAX then (false, s)
      else
        let first :=
          if s.first = 0 ∨ add64 elfbase start < s.first then add64 elfbase start else s.first
        let r := bufReadElfseg e env s.box s.host
          ⟨add64 s.base start, offset, add64 s.base stop, p.p_offset, p.p_filesz, p.p_memsz,
            pflags p.p_flags (env.bti elf), p.p_align⟩ elf pagesize mapOp
        if !r.1 then (false, { s with box := r.2.1, host := r.2.2 })
        else
          let base := if s.base = 0 then add64 s.base start else s.base
          let last := if add64 base stop > s.last then add64 base stop else s.last
          loadSegments env elf pagesize mapOp elfbase phdrs ⟨r.2.1, r.2.2, base, first, last⟩

/-- What `elf_load_one` stores through its pointers. -/
structure LoadedElf where
  first : Nat
  last : Nat
  entry : Nat
  ehdr : Ehdr

/-- `elf_load_one`. -/
def elfLoadOne (env : LoadEnv) (box : LFIBox) (h : Host) (elf : Buf) (base pagesize : Nat)
    (mapOp : MapOp) : Option LoadedElf × LFIBox × Host :=
  let bytes := (bufRead elf sizeofEhdr 0).getD []
  let ehdr := Ehdr.ofBytes bytes
  if bytes.length ≠ sizeofEhdr then (none, box, h)
  else if !elfCheck ehdr then (none, box, h)
  else if ehdr.e_type ≠ ET_DYN then (none, box, h)
  else if ehdr.e_phnum > PHNUM_MAX then (none, box, h)
  else if !env.mallocOk elf then (none, box, h)
  else if ehdr.e_phoff ≥ elf.size then (none, box, h)
  else
    let table := (bufRead elf (sizeofPhdr * ehdr.e_phnum) ehdr.e_phoff).getD []
    if table.length ≠ sizeofPhdr * ehdr.e_phnum then (none, box, h)
    else if ehdr.e_entry ≥ CODE_MAX then (none, box, h)
    else
      let r := loadSegments e env elf pagesize mapOp base (phdrsOf table ehdr.e_phnum)
        ⟨box, h, base, 0, 0⟩
      if !r.1 then (none, r.2.box, r.2.host)
      else
        (some ⟨r.2.first, r.2.last, add64 r.2.base ehdr.e_entry, ehdr⟩, r.2.box, r.2.host)

/-- `elf_load`, with the information that it fills in. -/
def elfLoad (env : LoadEnv) (box : LFIBox) (h : Host) (prog : Buf) (interp : Option Buf)
    (mapOp : MapOp) : Option ELFLoadInfo × LFIBox × Host :=
  let pagesize := e.opts.pagesize
  let u := elfLoadOne e env box h prog box.min pagesize mapOp
  match u.1, interp with
  | none, _ => (none, u.2)
  | some p, none =>
    (some ⟨p.last, p.entry, 0, p.first, p.first, p.ehdr.e_phoff, p.ehdr.e_phnum,
      p.ehdr.e_phentsize⟩, u.2)
  | some p, some ibuf =>
    let v := elfLoadOne e env u.2.1 u.2.2 ibuf p.last pagesize mapOp
    match v.1 with
    | none => (none, v.2)
    | some i =>
      (some ⟨i.last, p.entry, i.entry, p.first, i.first, p.ehdr.e_phoff, p.ehdr.e_phnum,
        p.ehdr.e_phentsize⟩, v.2)

/-- `proc_load`, from the call of `elf_load` on: `interp` is the buffer that
`buf_read_file` has returned. -/
def procLoad (env : LoadEnv) (o : LFILinuxOptions) (proc : LFILinuxProc) (prog : Buf)
    (interp : Option Buf) (mapOp : MapOp) (a : Allocs) : Bool × LFILinuxProc :=
  let u := elfLoad e env proc.box proc.host prog interp mapOp
  let proc := { proc with box := u.2.1, host := u.2.2 }
  match u.1 with
  | none => (false, proc)
  | some info =>
    let entry := if interp.isSome then info.ldentry else info.elfentry
    let proc := { proc with entry := entry, elfinfo := info }
    -- whether the symbols could be loaded does not matter
    let proc := ((elfLoadsyms proc prog a).getD (false, proc)).2
    reserveBrk e o proc

end LfiRuntime.Elf
