import LfiRuntime.Lib.Bytes

/-!
The file format (`elfdefs.h`), as the loader reads it out of a buffer (`buf.h`).
-/

namespace LfiRuntime.Elf

open LfiRuntime.ByteString

/-- `struct Buf`. The descriptor is -1 for a file that is only in memory. -/
structure Buf where
  fd : Int
  data : Bytes
  size_lt : data.length < 2 ^ 64

def Buf.size (b : Buf) : Nat := b.data.length

/-- `buf_read`: the bytes that it copies. -/
def bufRead (buf : Buf) (count offset : Nat) : Option Bytes :=
  if offset ≥ buf.size then some []
  else slice buf.data offset (min count (buf.size - offset))

structure Ehdr where
  e_ident : Bytes
  e_type : Nat
  e_version : Nat
  e_entry : Nat
  e_phoff : Nat
  e_shoff : Nat
  e_phentsize : Nat
  e_phnum : Nat
  e_shentsize : Nat
  e_shnum : Nat
  e_shstrndx : Nat
deriving DecidableEq

structure Phdr where
  p_type : Nat
  p_flags : Nat
  p_offset : Nat
  p_vaddr : Nat
  p_filesz : Nat
  p_memsz : Nat
  p_align : Nat
deriving DecidableEq, Repr

structure Shdr where
  sh_name : Nat
  sh_offset : Nat
  sh_size : Nat
  sh_link : Nat
deriving DecidableEq, Repr

structure Sym where
  st_name : Nat
  st_shndx : Nat
  st_value : Nat
deriving DecidableEq, Repr

/-! The size of each structure, and where the fields are. -/

def sizeofEhdr : Nat := 64
def sizeofPhdr : Nat := 56
def sizeofShdr : Nat := 64
def sizeofSym : Nat := 24

def Ehdr.ofBytes (bs : Bytes) : Ehdr where
  e_ident := bs.take 16
  e_type := field bs 16 2
  e_version := field bs 20 4
  e_entry := field bs 24 8
  e_phoff := field bs 32 8
  e_shoff := field bs 40 8
  e_phentsize := field bs 54 2
  e_phnum := field bs 56 2
  e_shentsize := field bs 58 2
  e_shnum := field bs 60 2
  e_shstrndx := field bs 62 2

def Phdr.ofBytes (bs : Bytes) : Phdr where
  p_type := field bs 0 4
  p_flags := field bs 4 4
  p_offset := field bs 8 8
  p_vaddr := field bs 16 8
  p_filesz := field bs 32 8
  p_memsz := field bs 40 8
  p_align := field bs 48 8

def Shdr.ofBytes (bs : Bytes) : Shdr where
  sh_name := field bs 0 4
  sh_offset := field bs 24 8
  sh_size := field bs 32 8
  sh_link := field bs 40 4

def Sym.ofBytes (bs : Bytes) : Sym where
  st_name := field bs 0 4
  st_shndx := field bs 6 2
  st_value := field bs 8 8

def ELFMAG : Bytes := [0x7f, 0x45, 0x4c, 0x46]
def EI_CLASS : Nat := 4
def ELFCLASS64 : UInt8 := 2
def EV_CURRENT : Nat := 1
def ET_DYN : Nat := 3
def PT_LOAD : Nat := 1
def PT_DYNAMIC : Nat := 2
def PT_INTERP : Nat := 3
def PF_X : Nat := 1
def PF_W : Nat := 2
def PF_R : Nat := 4
def SHN_UNDEF : Nat := 0

/-- The program headers in a table of `n`. -/
def phdrsOf (bs : Bytes) (n : Nat) : List Phdr :=
  (List.range n).map fun i => Phdr.ofBytes ((bs.drop (sizeofPhdr * i)).take sizeofPhdr)

/-- The symbols in a table; what is left over behind the last one is none. -/
def symsOf (bs : Bytes) : List Sym :=
  (List.range (bs.length / sizeofSym)).map fun i =>
    Sym.ofBytes ((bs.drop (sizeofSym * i)).take sizeofSym)

variable {buf : Buf} {count offset : Nat}

/-- It copies what there is, and never more. -/
theorem bufRead_eq (buf : Buf) (count offset : Nat) :
    bufRead buf count offset = some ((buf.data.drop offset).take count) := by
  unfold bufRead
  split
  · rename_i hge
    rw [List.drop_eq_nil_of_le hge, List.take_nil]
  · rename_i hlt
    have hlen : (buf.data.drop offset).length = buf.size - offset := List.length_drop
    have hlt : offset < buf.size := Nat.lt_of_not_le hlt
    rw [slice_of_le (by rw [← Buf.size]; omega)]
    congr 1
    rw [List.take_eq_take_iff, hlen]
    omega

/-- A read is complete exactly if all of its bytes are in the buffer. -/
theorem length_take_drop_eq_iff (hcount : 0 < count) :
    ((buf.data.drop offset).take count).length = count ↔ offset + count ≤ buf.size := by
  rw [List.length_take, List.length_drop, Buf.size]
  omega

end LfiRuntime.Elf
