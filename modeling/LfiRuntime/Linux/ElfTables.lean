import LfiRuntime.Linux.ElfSym

/-!
What the symbol functions find in a file: the sections by their names, and the
symbols by theirs.
-/

namespace LfiRuntime.Elf

open LfiRuntime.ByteString
open LfiRuntime.Handles

/-- The file's header. -/
def Buf.ehdr (elf : Buf) : Ehdr := Ehdr.ofBytes (elf.data.take sizeofEhdr)

/-- The header of section `i`. -/
def Buf.shdr (elf : Buf) (i : Nat) : Shdr :=
  Shdr.ofBytes ((elf.data.drop (elf.ehdr.e_shoff + i * sizeofShdr)).take sizeofShdr)

/-- The bytes of a section. -/
def Buf.contents (elf : Buf) (sh : Shdr) : Bytes := (elf.data.drop sh.sh_offset).take sh.sh_size

/-- The name of section `i`, if it is in the string table for them. -/
def Buf.sectionName (elf : Buf) (i : Nat) : Option Bytes :=
  stringAt (elf.contents (elf.shdr elf.ehdr.e_shstrndx)) (elf.shdr i).sh_name

/-- The first section with the name `.dynsym`, and the one that it links to. -/
structure IsDynsym (elf : Buf) (i : Nat) : Prop where
  lt : i < elf.ehdr.e_shnum
  name : elf.sectionName i = some (bytesOf ".dynsym")
  first : ∀ j, j < i → elf.sectionName j ≠ some (bytesOf ".dynsym")
  link : (elf.shdr i).sh_link < elf.ehdr.e_shnum

/-- The bytes of the process's copy of a section. -/
def LFILinuxProc.contents (proc : LFILinuxProc) (s : ElfSection) : Option Bytes :=
  (proc.block s).bind (slice · 0 s.size)

/-- The first symbol with the name. -/
def findSym (syms strtab name : Bytes) : Option Sym :=
  (symsOf syms).find? fun sym => decide (stringAt strtab sym.st_name = some (cString name))

variable {elf : Buf} {proc : LFILinuxProc} {bs part name : Bytes} {base len off i n : Nat}

theorem regionOk_iff : regionOk off len n = true ↔ off + len ≤ n := by
  simp only [regionOk, Bool.and_eq_true, decide_eq_true_eq]
  omega

/-! A string table in a block. -/

theorem strInBounds_eq (h : base + len ≤ bs.length) (off : Nat) :
    strInBounds (some bs) base len off =
      some (stringAt ((bs.drop base).take len) off).isSome := by
  unfold strInBounds stringAt
  split
  · rename_i hge
    rw [List.drop_eq_nil_of_le (by simp; omega)]
    rfl
  · rename_i hlt
    rw [Option.bind_some, hasZero_eq (by omega), List.drop_take, List.drop_drop]
    split <;> simp_all

theorem cString_take (h : 0 ∈ bs.take n) : cString (bs.take n) = cString bs := by
  induction n generalizing bs with
  | zero => simp at h
  | succ n ih =>
      cases bs with
      | nil => simp at h
      | cons b bs =>
          rw [List.take_succ_cons] at h ⊢
          rw [cString_cons, cString_cons]
          split
          · rfl
          · rename_i hb
            rw [ih (by simpa [Ne.symm hb] using h)]

theorem sameString_of_stringAt (h : (stringAt ((bs.drop base).take len) off).isSome) (name : Bytes) :
    sameString bs (base + off) name =
      some (decide (stringAt ((bs.drop base).take len) off = some (cString name))) := by
  have hmem : 0 ∈ ((bs.drop base).take len).drop off := by
    by_contra hnot
    simp [stringAt, hnot] at h
  rw [List.drop_take, List.drop_drop] at hmem
  rw [sameString_eq (List.mem_of_mem_take hmem)]
  congr 2
  rw [stringAt_eq_some_iff, List.drop_take, List.drop_drop, cString_take hmem]
  simp [hmem]

/-! The section headers. -/

/-- The tables of section headers and of their names lie in the file. -/
structure SectionsOk (elf : Buf) : Prop where
  table : elf.ehdr.e_shoff + elf.ehdr.e_shnum * sizeofShdr ≤ elf.size
  names : (elf.shdr elf.ehdr.e_shstrndx).sh_offset + (elf.shdr elf.ehdr.e_shstrndx).sh_size ≤ elf.size

theorem readShdr_eq (htable : elf.ehdr.e_shoff + elf.ehdr.e_shnum * sizeofShdr ≤ elf.size)
    (hi : i < elf.ehdr.e_shnum) : readShdr elf elf.ehdr i = some (some (elf.shdr i)) := by
  have hend : elf.ehdr.e_shoff + i * sizeofShdr + sizeofShdr ≤ elf.size := by
    have hle : (i + 1) * sizeofShdr ≤ elf.ehdr.e_shnum * sizeofShdr := Nat.mul_le_mul_right _ hi
    rw [Nat.add_mul, Nat.one_mul] at hle
    omega
  have hlt : elf.ehdr.e_shoff + i * sizeofShdr < 2 ^ 64 := by
    have hsize := elf.size_lt
    rw [← Buf.size] at hsize
    simp only [sizeofShdr] at hend ⊢
    omega
  have hlen := (@length_take_drop_eq_iff elf sizeofShdr (elf.ehdr.e_shoff + i * sizeofShdr)
    (by decide)).mpr hend
  rw [readShdr, Nat.mod_eq_of_lt hlt, bufRead_eq]
  simp [hlen, Buf.shdr]

/-- What the search through the sections finds. -/
def Finds (elf : Buf) (r : Option (Shdr × Shdr)) : Prop :=
  ∀ sh link, r = some (sh, link) →
    ∃ i, IsDynsym elf i ∧ sh = elf.shdr i ∧ link = elf.shdr (elf.shdr i).sh_link

theorem findDynsym_spec (h : SectionsOk elf) (hn : i + n = elf.ehdr.e_shnum)
    (hbefore : ∀ j, j < i → elf.sectionName j ≠ some (bytesOf ".dynsym")) :
    ∃ r, findDynsym elf elf.ehdr (elf.shdr elf.ehdr.e_shstrndx) i n = some r ∧ Finds elf r := by
  induction n generalizing i with
  | zero => exact ⟨none, rfl, by simp [Finds]⟩
  | succ n ih =>
      have hstep : elf.sectionName i ≠ some (bytesOf ".dynsym") →
          ∃ r, findDynsym elf elf.ehdr (elf.shdr elf.ehdr.e_shstrndx) (i + 1) n = some r ∧
            Finds elf r := by
        intro hne
        apply ih (by omega)
        intro j hj
        rcases Nat.lt_succ_iff_lt_or_eq.mp hj with hlt | rfl
        · exact hbefore j hlt
        · exact hne
      have hnames : (elf.shdr elf.ehdr.e_shstrndx).sh_offset +
          (elf.shdr elf.ehdr.e_shstrndx).sh_size ≤ elf.data.length := h.names
      have hin := strInBounds_eq hnames (elf.shdr i).sh_name
      rw [← Buf.contents, ← Buf.sectionName] at hin
      rw [findDynsym, readShdr_eq h.table (by omega)]
      simp only [Option.bind_eq_bind, Option.bind_some, hin]
      cases hname : (elf.sectionName i).isSome with
      | false =>
          simp only [Bool.not_false, if_true]
          apply hstep
          rw [Option.isSome_eq_false_iff, Option.isNone_iff_eq_none] at hname
          simp [hname]
      | true =>
          have hsame := sameString_of_stringAt hname (bytesOf ".dynsym")
          rw [← Buf.contents, ← Buf.sectionName,
            show cString (bytesOf ".dynsym") = bytesOf ".dynsym" by decide] at hsame
          simp only [Bool.not_true, Bool.false_eq_true, if_false, hsame, Option.bind_some]
          by_cases heq : elf.sectionName i = some (bytesOf ".dynsym")
          · simp only [heq, decide_true, Bool.not_true, Bool.false_eq_true, if_false]
            split
            · exact ⟨none, rfl, by simp [Finds]⟩
            · rename_i hlink
              have hlink : (elf.shdr i).sh_link < elf.ehdr.e_shnum := Nat.lt_of_not_le hlink
              rw [readShdr_eq h.table hlink]
              refine ⟨_, rfl, ?_⟩
              rintro _ _ ⟨⟩
              exact ⟨i, ⟨by omega, heq, hbefore, hlink⟩, rfl, rfl⟩
          · simp only [heq, decide_false, Bool.not_false, if_true]
            exact hstep heq

theorem loadDynshs_spec (elf : Buf) : ∃ r, loadDynshs elf = some r ∧ Finds elf r := by
  have hnone : ∃ r, (some none : Option (Option (Shdr × Shdr))) = some r ∧ Finds elf r :=
    ⟨none, rfl, by simp [Finds]⟩
  rw [loadDynshs, bufRead_eq]
  simp only [Option.bind_eq_bind, Option.bind_some, List.drop_zero]
  rw [← Buf.ehdr]
  split
  · exact hnone
  split
  · exact hnone
  split
  · exact hnone
  split
  · exact hnone
  split
  · exact hnone
  rename_i htable
  split
  · exact hnone
  rename_i hidx
  simp only [Bool.not_eq_true', Bool.not_eq_false, regionOk_iff] at htable
  rw [readShdr_eq htable (Nat.lt_of_not_le hidx)]
  simp only [Option.bind_some]
  split
  · exact hnone
  rename_i hnames
  simp only [Bool.not_eq_true', Bool.not_eq_false, regionOk_iff] at hnames
  exact findDynsym_spec ⟨htable, hnames⟩ (Nat.zero_add _) (by simp)

/-! Symbols by their names. -/

section

variable {syms strs block : Bytes}

theorem contents_eq_some_iff {s : ElfSection} : proc.contents s = some part ↔
    ∃ block, proc.block s = some block ∧ s.size ≤ block.length ∧ part = block.take s.size := by
  unfold LFILinuxProc.contents
  cases proc.block s with
  | none => simp
  | some block => simp [slice_eq_some_iff]

theorem length_symsOf (syms : Bytes) : (symsOf syms).length = syms.length / sizeofSym := by
  simp [symsOf]

theorem drop_symsOf (hi : i < syms.length / sizeofSym) :
    (symsOf syms).drop i =
      Sym.ofBytes ((syms.drop (sizeofSym * i)).take sizeofSym) :: (symsOf syms).drop (i + 1) := by
  rw [List.drop_eq_getElem_cons (by rwa [length_symsOf])]
  simp [symsOf]

theorem procSymFrom_eq (hsyms : proc.contents proc.dynsym = some syms)
    (hstrs : proc.contents proc.dynstr = some strs) (name : Bytes)
    (hn : i + n = syms.length / sizeofSym) :
    procSymFrom proc name i n =
      some ((((symsOf syms).drop i).find? fun sym =>
        decide (stringAt strs sym.st_name = some (cString name))).elim 0 fun sym =>
          (proc.elfinfo.elfbase + sym.st_value) % 2 ^ 64) := by
  obtain ⟨block, hblock, hsize, rfl⟩ := contents_eq_some_iff.mp hsyms
  obtain ⟨strtab, hstrtab, hstrsize, rfl⟩ := contents_eq_some_iff.mp hstrs
  induction n generalizing i with
  | zero =>
      rw [List.drop_eq_nil_of_le (by rw [length_symsOf]; omega)]
      rfl
  | succ n ih =>
      have hlen : (block.take proc.dynsym.size).length = proc.dynsym.size := by simp [hsize]
      have hend : sizeofSym * i + sizeofSym ≤ proc.dynsym.size := by
        have hmul := Nat.div_mul_le_self proc.dynsym.size sizeofSym
        rw [hlen] at hn
        rw [← hn] at hmul
        simp only [sizeofSym] at hmul ⊢
        omega
      have hread : slice block (sizeofSym * i) sizeofSym =
          some (((block.take proc.dynsym.size).drop (sizeofSym * i)).take sizeofSym) := by
        rw [slice_of_le (by omega), List.drop_take, List.take_take, Nat.min_eq_left (by omega)]
      rw [drop_symsOf (by omega), procSymFrom, hblock, hstrtab]
      simp only [Option.bind_eq_bind, Option.bind_some, hread]
      generalize
        Sym.ofBytes (((block.take proc.dynsym.size).drop (sizeofSym * i)).take sizeofSym) = sym
      have hin : strInBounds (some strtab) 0 proc.dynstr.size sym.st_name =
          some (stringAt (strtab.take proc.dynstr.size) sym.st_name).isSome := by
        have hbounds := @strInBounds_eq strtab 0 proc.dynstr.size (by omega) sym.st_name
        rwa [List.drop_zero] at hbounds
      rw [hin, Option.bind_some]
      cases hname : (stringAt (strtab.take proc.dynstr.size) sym.st_name).isSome with
      | false =>
          rw [Option.isSome_eq_false_iff, Option.isNone_iff_eq_none] at hname
          rw [List.find?_cons_of_neg (by simp [hname])]
          exact ih (by omega)
      | true =>
          have hsame := @sameString_of_stringAt strtab 0 proc.dynstr.size sym.st_name
            (by simpa using hname) name
          rw [List.drop_zero, Nat.zero_add] at hsame
          simp only [Bool.not_true, Bool.false_eq_true, if_false, hsame, Option.bind_some]
          by_cases heq : stringAt (strtab.take proc.dynstr.size) sym.st_name = some (cString name)
          · rw [List.find?_cons_of_pos (by simp [heq])]
            simp [heq]
          · rw [List.find?_cons_of_neg (by simp [heq])]
            simp only [heq, decide_false, Bool.false_eq_true, if_false]
            exact ih (by omega)

/-- The address of the first symbol with the name, or zero. -/
theorem lfiProcSym_eq (hsyms : proc.contents proc.dynsym = some syms)
    (hstrs : proc.contents proc.dynstr = some strs) (name : Bytes) :
    lfiProcSym proc name = some ((findSym syms strs name).elim 0 fun sym =>
      (proc.elfinfo.elfbase + sym.st_value) % 2 ^ 64) := by
  have hsize : proc.dynsym.size = syms.length := by
    obtain ⟨block, -, hle, rfl⟩ := contents_eq_some_iff.mp hsyms
    simp [hle]
  rw [lfiProcSym, hsize, procSymFrom_eq hsyms hstrs name (Nat.zero_add _), List.drop_zero, findSym]

end

/-- No name is found where there is not a whole symbol. -/
theorem lfiProcSym_empty (h : proc.dynsym.size < sizeofSym) (name : Bytes) :
    lfiProcSym proc name = some 0 := by
  rw [lfiProcSym, Nat.div_eq_of_lt h, procSymFrom]

/-- A table that is not there is read for every name. -/
theorem lfiProcSym_null (hnull : proc.block proc.dynsym = none) (h : sizeofSym ≤ proc.dynsym.size)
    (name : Bytes) : lfiProcSym proc name = none := by
  obtain ⟨n, hn⟩ : ∃ n, proc.dynsym.size / sizeofSym = n + 1 :=
    Nat.exists_eq_succ_of_ne_zero (Nat.div_pos h (by decide)).ne'
  rw [lfiProcSym, hn, procSymFrom, hnull]
  rfl

end LfiRuntime.Elf
