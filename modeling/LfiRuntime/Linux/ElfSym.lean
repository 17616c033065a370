import LfiRuntime.Lib.Handles
import LfiRuntime.Box.Box
import LfiRuntime.Linux.Elf

/-!
`elfsym.c`: the dynamic symbols of a process, with `elf_interp` of `elfload.c`. A
function has no result where it reads outside the file or outside a live block of the
heap.
-/

namespace LfiRuntime.Elf

open LfiRuntime.Box
open LfiRuntime.ByteString
open LfiRuntime.Handles
open LfiRuntime.HostCalls

/-- The address of a block of the heap. -/
abbrev Ptr := Nat

abbrev Heap := Ledger Ptr Bytes

/-- `malloc`, with the address that it returns. An address in use is not given out,
and nothing reads the new block before it is written. -/
def malloc (heap : Heap) (answer : Option Ptr) (size : Nat) : Option (Ptr × Heap) :=
  answer.bind fun p =>
    if (heap.content p).isNone then some (p, heap.create p (List.replicate size 0)) else none

def free (heap : Heap) (p : Option Ptr) : Heap :=
  match p with
  | none => heap
  | some p => heap.close p

/-- `memcpy` to the start of a block. -/
def copyInto (heap : Heap) (p : Ptr) (bytes : Bytes) : Heap :=
  heap.write p (bytes ++ ((heap.content p).getD []).drop bytes.length)

/-- `struct ElfSection`. -/
structure ElfSection where
  data : Option Ptr
  size : Nat
deriving DecidableEq

def ElfSection.zero : ElfSection := ⟨none, 0⟩

/-- `struct LibSymbols`. -/
structure LibSymbols where
  threadCreate : Nat
  threadDestroy : Nat
  malloc : Nat
  realloc : Nat
  calloc : Nat
  free : Nat
  setjmp : Nat
deriving DecidableEq

/-- `struct ELFLoadInfo`. -/
structure ELFLoadInfo where
  lastva : Nat
  elfentry : Nat
  ldentry : Nat
  elfbase : Nat
  ldbase : Nat
  elfphoff : Nat
  elfphnum : Nat
  elfphentsize : Nat
deriving DecidableEq

/-- The fields of `struct LFILinuxProc` that a program's image is in. -/
structure LFILinuxProc where
  box : LFIBox
  host : Host
  heap : Heap
  entry : Nat
  elfinfo : ELFLoadInfo
  dynsym : ElfSection
  dynstr : ElfSection
  libsyms : LibSymbols
  brkbase : Nat
  brksize : Nat

/-- What a section of the process refers to. -/
def LFILinuxProc.block (proc : LFILinuxProc) (s : ElfSection) : Option Bytes :=
  s.data.bind proc.heap.content

def regionOk (off len size : Nat) : Bool := off ≤ size && len ≤ size - off

/-- `str_in_bounds`, on the string table at `base` in a block. -/
def strInBounds (block : Option Bytes) (base strsize off : Nat) : Option Bool :=
  if off ≥ strsize then some false
  else block.bind fun bs => hasZero bs (base + off) (strsize - off)

/-- The loop of `lfi_proc_sym`, with `n` symbols left from the symbol `i` on. -/
def procSymFrom (proc : LFILinuxProc) (symname : Bytes) : Nat → Nat → Option Nat
  | _, 0 => some 0
  | i, n + 1 => do
    let bytes ← (proc.block proc.dynsym).bind (slice · (sizeofSym * i) sizeofSym)
    let sym := Sym.ofBytes bytes
    let inBounds ← strInBounds (proc.block proc.dynstr) 0 proc.dynstr.size sym.st_name
    if !inBounds then procSymFrom proc symname (i + 1) n
    else
      let same ← (proc.block proc.dynstr).bind (sameString · sym.st_name symname)
      if same then some ((proc.elfinfo.elfbase + sym.st_value) % 2 ^ 64)
      else procSymFrom proc symname (i + 1) n

def lfiProcSym (proc : LFILinuxProc) (symname : Bytes) : Option Nat :=
  procSymFrom proc symname 0 (proc.dynsym.size / sizeofSym)

/-- The bytes of a literal. -/
def bytesOf (s : String) : Bytes := s.toList.map fun c => UInt8.ofNat c.toNat

/-- `loadsym`, with the address that it stores. -/
def loadsym (proc : LFILinuxProc) (sym : Bytes) : Option (Option Nat) := do
  let bp ← lfiProcSym proc sym
  if !lfiBoxPtrvalid proc.box bp then return none
  if bp % 4 ≠ 0 then return none
  return some bp

/-- `load_libsyms`, which keeps the old address of what is not found. -/
def loadLibsyms (proc : LFILinuxProc) : Option (Bool × LFILinuxProc) := do
  let s := proc.libsyms
  let threadCreate ← loadsym proc (bytesOf "_lfi_thread_create")
  let threadDestroy ← loadsym proc (bytesOf "_lfi_thread_destroy")
  let malloc ← loadsym proc (bytesOf "_lfi_malloc")
  let realloc ← loadsym proc (bytesOf "_lfi_realloc")
  let calloc ← loadsym proc (bytesOf "_lfi_calloc")
  let free ← loadsym proc (bytesOf "_lfi_free")
  let setjmp ← loadsym proc (bytesOf "_lfi_setjmp")
  return (true, { proc with
    libsyms :=
      ⟨threadCreate.getD s.threadCreate, threadDestroy.getD s.threadDestroy,
        malloc.getD s.malloc, realloc.getD s.realloc, calloc.getD s.calloc,
        free.getD s.free, setjmp.getD s.setjmp⟩ })

/-- `read_shdr`. -/
def readShdr (elf : Buf) (ehdr : Ehdr) (idx : Nat) : Option (Option Shdr) := do
  let bytes ← bufRead elf sizeofShdr ((ehdr.e_shoff + idx * sizeofShdr) % 2 ^ 64)
  return if bytes.length = sizeofShdr then some (Shdr.ofBytes bytes) else none

/-- The loop of `load_dynshs`, with `n` sections left from the section `i` on. -/
def findDynsym (elf : Buf) (ehdr : Ehdr) (shstr : Shdr) :
    Nat → Nat → Option (Option (Shdr × Shdr))
  | _, 0 => some none
  | i, n + 1 => do
    match ← readShdr elf ehdr i with
    | none => return none
    | some sh =>
      let inBounds ← strInBounds (some elf.data) shstr.sh_offset shstr.sh_size sh.sh_name
      if !inBounds then findDynsym elf ehdr shstr (i + 1) n
      else
        let same ← sameString elf.data (shstr.sh_offset + sh.sh_name) (bytesOf ".dynsym")
        if !same then findDynsym elf ehdr shstr (i + 1) n
        else if sh.sh_link ≥ ehdr.e_shnum then return none
        else
          let link ← readShdr elf ehdr sh.sh_link
          return link.map (sh, ·)

/-- `load_dynshs`: the headers of `.dynsym` and of `.dynstr`. -/
def loadDynshs (elf : Buf) : Option (Option (Shdr × Shdr)) := do
  let bytes ← bufRead elf sizeofEhdr 0
  let ehdr := Ehdr.ofBytes bytes
  if bytes.length ≠ sizeofEhdr then return none
  else if ehdr.e_ident.take 4 ≠ ELFMAG then return none
  else if ehdr.e_shoff = 0 ∨ ehdr.e_shentsize ≠ sizeofShdr then return none
  else if ehdr.e_shnum = 0 then return none
  else if !regionOk ehdr.e_shoff (ehdr.e_shnum * sizeofShdr) elf.size then return none
  else if ehdr.e_shstrndx ≥ ehdr.e_shnum then return none
  else
    match ← readShdr elf ehdr ehdr.e_shstrndx with
    | none => return none
    | some shstr =>
      if !regionOk shstr.sh_offset shstr.sh_size elf.size then return none
      else findDynsym elf ehdr shstr 0 ehdr.e_shnum

/-- The loop of `elf_dynamic`, with `n` headers left from the header `x` on. -/
def elfDynamicFrom (elf : Buf) (ehdr : Ehdr) : Nat → Nat → Option (Option Nat)
  | _, 0 => some none
  | x, n + 1 => do
    let bytes ← bufRead elf sizeofPhdr ((ehdr.e_phoff + x * sizeofPhdr) % 2 ^ 64)
    let phdr := Phdr.ofBytes bytes
    if bytes.length ≠ sizeofPhdr then return none
    else if phdr.p_type = PT_DYNAMIC then return some phdr.p_vaddr
    else elfDynamicFrom elf ehdr (x + 1) n

/-- `elf_dynamic`. -/
def elfDynamic (elf : Buf) : Option (Option Nat) := do
  let bytes ← bufRead elf sizeofEhdr 0
  let ehdr := Ehdr.ofBytes bytes
  if bytes.length ≠ sizeofEhdr then return none
  else elfDynamicFrom elf ehdr 0 ehdr.e_phnum

def PHNUM_MAX : Nat := 64
def INTERP_MAX : Nat := 1024

/-- `elf_interp`, with whether its `malloc` succeeds: the block that it returns. -/
def elfInterp (prog : Buf) (mallocOk : Bool) : Option (Option Bytes) := do
  let bytes ← bufRead prog sizeofEhdr 0
  let ehdr := Ehdr.ofBytes bytes
  if bytes.length ≠ sizeofEhdr then return none
  else if ehdr.e_phnum = 0 ∨ ehdr.e_phnum > PHNUM_MAX then return none
  else if ehdr.e_phoff ≥ prog.size then return none
  else
    let bytes ← bufRead prog (sizeofPhdr * ehdr.e_phnum) ehdr.e_phoff
    if bytes.length ≠ sizeofPhdr * ehdr.e_phnum then return none
    else
      match (phdrsOf bytes ehdr.e_phnum).find? fun p => decide (p.p_type = PT_INTERP) with
      | none => return none
      | some p =>
        if p.p_filesz ≥ INTERP_MAX then return none
        else if !mallocOk then return none
        else
          let interp ← bufRead prog p.p_filesz p.p_offset
          if interp.length ≠ p.p_filesz then return none
          else return some (interp ++ [0])

/-- What the two calls of `malloc` in `elf_loadsyms` return. -/
structure Allocs where
  dynsym : Option Ptr
  dynstr : Option Ptr

/-- `elf_loadsyms`. -/
def elfLoadsyms (proc : LFILinuxProc) (elf : Buf) (a : Allocs) : Option (Bool × LFILinuxProc) := do
  match ← loadDynshs elf with
  | none => return (false, proc)
  | some (dynsym, dynstr) =>
    if !regionOk dynsym.sh_offset dynsym.sh_size elf.size ||
        !regionOk dynstr.sh_offset dynstr.sh_size elf.size then return (false, proc)
    else
      match malloc proc.heap a.dynsym (if dynsym.sh_size ≠ 0 then dynsym.sh_size else 1) with
      | none => return (false, { proc with dynsym := ⟨none, dynsym.sh_size⟩ })
      | some (p, heap) =>
        let bytes ← slice elf.data dynsym.sh_offset dynsym.sh_size
        let proc :=
          { proc with dynsym := ⟨some p, dynsym.sh_size⟩, heap := copyInto heap p bytes }
        match malloc proc.heap a.dynstr (if dynstr.sh_size ≠ 0 then dynstr.sh_size else 1) with
        | none =>
          return (false,
            { proc with
              heap := free proc.heap proc.dynsym.data
              dynsym := .zero
              dynstr := ⟨none, dynstr.sh_size⟩ })
        | some (q, heap) =>
          let bytes ← slice elf.data dynstr.sh_offset dynstr.sh_size
          let proc :=
            { proc with dynstr := ⟨some q, dynstr.sh_size⟩, heap := copyInto heap q bytes }
          let r ← loadLibsyms proc
          if !r.1 then
            let heap := free (free r.2.heap r.2.dynstr.data) r.2.dynsym.data
            return (false, { r.2 with heap := heap, dynsym := .zero, dynstr := .zero })
          else return r

/-- What `proc_destroy` does with the symbols. -/
def destroySyms (proc : LFILinuxProc) : LFILinuxProc :=
  { proc with heap := free (free proc.heap proc.dynsym.data) proc.dynstr.data }

end LfiRuntime.Elf
