import LfiRuntime.Linux.ElfContents

/-!
The addresses of dynamic symbols, beside those of the segments.
-/

namespace LfiRuntime.Elf

open LfiRuntime.Align
open LfiRuntime.Box
open LfiRuntime.Brk
open LfiRuntime.ByteString
open LfiRuntime.Config
open LfiRuntime.HostCalls
open LfiRuntime.Mmap
open LfiRuntime.PagedMemory

/-- The contents of `.dynsym` and of its string table, empty where the file has none. -/
def Buf.dynTables (elf : Buf) : Bytes × Bytes :=
  match loadDynshs elf with
  | some (some (sym, str)) =>
    if regionOk sym.sh_offset sym.sh_size elf.size && regionOk str.sh_offset str.sh_size elf.size then
      (elf.contents sym, elf.contents str)
    else ([], [])
  | _ => ([], [])

def Sym.Defined (s : Sym) : Prop := s.st_shndx ≠ SHN_UNDEF

instance (s : Sym) : Decidable s.Defined := inferInstanceAs (Decidable (_ ≠ _))

/-- The first symbol of a file with the name. -/
def Buf.sym (elf : Buf) (name : Bytes) : Option Sym := findSym elf.dynTables.1 elf.dynTables.2 name

/-- The first defined symbol of a file with the name. -/
def Buf.definedSym (elf : Buf) (name : Bytes) : Option Sym :=
  (symsOf elf.dynTables.1).find? fun s =>
    decide (s.Defined ∧ stringAt elf.dynTables.2 s.st_name = some (cString name))

/-- Every name has the address of its first defined symbol, in an image that is loaded at
`base`. -/
def SymbolsResolve (base : Nat) (elf : Buf) (proc : LFILinuxProc) : Prop :=
  ∀ name, lfiProcSym proc name =
    some ((elf.definedSym name).elim 0 fun s => (base + s.st_value) % 2 ^ 64)

/-- The lowest address of the file that a segment is loaded to. -/
def Buf.lowestStart (elf : Buf) : Option Nat := (elf.loads.map Phdr.start).min?

/-- The name belongs to no symbol, or first to a defined one of an image that starts at
address 0, or first to an undefined one that has the right value by chance. -/
def NameResolves (base : Nat) (elf : Buf) (name : Bytes) : Prop :=
  ∀ s, elf.sym name = some s →
    if s.Defined then elf.lowestStart = some 0
    else (elf.lowestStart.elim 0 (base + ·) + s.st_value) % 2 ^ 64 =
      (elf.definedSym name).elim 0 fun d => (base + d.st_value) % 2 ^ 64

/-- What decides whether the symbols of a file resolve, when it is loaded by a new process. -/
def BiasRight (base : Nat) (elf : Buf) (proc : LFILinuxProc) (a : Allocs) : Prop :=
  (AllocatesCopies proc elf a ∧ ∀ name, NameResolves base elf name) ∨
    ¬AllocatesCopies proc elf a ∧ ¬LosesSyms proc elf a ∧
      ∀ name d, elf.definedSym name = some d → (base + d.st_value) % 2 ^ 64 = 0

variable {e : Engine} {env : LoadEnv} {mapOp : MapOp} {o : LFILinuxOptions} {r : Region}
  {prog elf : Buf} {interp : Option Buf} {base : Nat} {proc proc' : LFILinuxProc} {a : Allocs}
  {sym str : Shdr} {name : Bytes} {s : Sym}

theorem dynTables_of_tables (h : Tables elf sym str) :
    elf.dynTables = (elf.contents sym, elf.contents str) := by
  rw [Buf.dynTables, h.found]
  simp only [regionOk_iff.mpr h.sym_le, regionOk_iff.mpr h.str_le, Bool.and_self, if_true]

theorem dynTables_of_none (h : ∀ sym str, ¬Tables elf sym str) : elf.dynTables = ([], []) := by
  rw [Buf.dynTables]
  split
  · rename_i sym str hfound
    split
    · rename_i hregion
      rw [Bool.and_eq_true, regionOk_iff, regionOk_iff] at hregion
      exact absurd ⟨hfound, hregion.1, hregion.2⟩ (h sym str)
    · rfl
  · rfl

theorem definedSym_of_sym (hs : elf.sym name = some s) (hd : s.Defined) :
    elf.definedSym name = some s := by
  obtain ⟨hp, pre, post, heq, hpre⟩ := List.find?_eq_some_iff_append.mp hs
  refine List.find?_eq_some_iff_append.mpr ⟨?_, pre, post, heq, fun t ht => ?_⟩
  · simpa [hd] using hp
  · have hfirst := hpre t ht
    simp only [Bool.not_eq_true', decide_eq_false_iff_not] at hfirst ⊢
    exact fun hand => hfirst hand.2

theorem definedSym_of_none (hs : elf.sym name = none) : elf.definedSym name = none := by
  refine List.find?_eq_none.mpr fun t ht => ?_
  have hno := List.find?_eq_none.mp hs t ht
  rw [decide_eq_true_eq] at hno ⊢
  exact fun hand => hno hand.2

theorem definedSym_of_length_lt (h : elf.dynTables.1.length < sizeofSym) (name : Bytes) :
    elf.definedSym name = none := by
  have hnil : symsOf elf.dynTables.1 = [] := by
    rw [← List.length_eq_zero_iff, length_symsOf, Nat.div_eq_of_lt h]
  rw [Buf.definedSym, hnil]
  rfl

/-! What the loader uses for the bias. -/

theorem min?_map_add (l : List Nat) (b : Nat) : (l.map (b + ·)).min? = l.min?.map (b + ·) := by
  cases hmin : l.min? with
  | none =>
      rw [List.min?_eq_none_iff] at hmin
      rw [hmin]
      rfl
  | some m =>
      obtain ⟨hmem, hle⟩ := List.min?_eq_some_iff.mp hmin
      refine List.min?_eq_some_iff.mpr ⟨List.mem_map_of_mem hmem, fun y hy => ?_⟩
      obtain ⟨x, hx, rfl⟩ := List.mem_map.mp hy
      exact Nat.add_le_add_left (hle x hx) b

theorem lowest_progSegs {box : LFIBox} (hb : InSpace e r box)
    (hv : ∀ p ∈ prog.phdrs, p.Loads → p.Valid e.opts.pagesize) :
    lowest (progSegs env box prog) = prog.lowestStart.elim 0 (box.min + ·) := by
  have hroom := hb.min_add_code_lt
  have hstarts : (progSegs env box prog).map SegArgs.start =
      (prog.loads.map Phdr.start).map (box.min + ·) := by
    rw [progSegs, segsAt_eq hb.min_ne_zero, ← Buf.loads, List.map_map, List.map_map]
    refine List.map_congr_left fun p hp => ?_
    obtain ⟨hmem, hl⟩ := mem_loads.mp hp
    have hlt := (hv p hmem hl).start_lt hl
    have hstop := (hv p hmem hl).stop_lt
    exact add64_eq (by omega)
  rw [lowest, hstarts, min?_map_add, Buf.lowestStart]
  cases (prog.loads.map Phdr.start).min? <;> rfl

/-- A lookup after the symbols have been loaded, where it ends well. -/
theorem resolves_iff_of_copies (hsyms : proc.contents proc.dynsym = some elf.dynTables.1)
    (hstrs : proc.contents proc.dynstr = some elf.dynTables.2)
    (hbase : proc.elfinfo.elfbase = elf.lowestStart.elim 0 (base + ·)) (hne : base ≠ 0)
    (hlt : ∀ x, elf.lowestStart = some x → base + x < 2 ^ 64) (hbound : base < 2 ^ 64) :
    SymbolsResolve base elf proc ↔ ∀ name, NameResolves base elf name := by
  refine forall_congr' fun name => ?_
  rw [lfiProcSym_eq hsyms hstrs, ← Buf.sym, hbase, Option.some_inj, NameResolves]
  cases hs : elf.sym name with
  | none => simp [definedSym_of_none hs]
  | some s =>
      simp only [Option.elim_some, Option.some.injEq, forall_eq']
      split
      · rename_i hd
        rw [definedSym_of_sym hs hd]
        cases hlow : elf.lowestStart with
        | none =>
            simp only [Option.elim_none, Option.elim_some, reduceCtorEq, iff_false]
            omega
        | some x =>
            have hsum := hlt x hlow
            simp only [Option.elim_some, Option.some.injEq]
            omega
      · exact Iff.rfl

/-! The symbols of a process. -/

theorem reserveBrk_frame (e : Engine) (o : LFILinuxOptions) (proc : LFILinuxProc) :
    let u := (reserveBrk e o proc).2
    u.heap = proc.heap ∧ u.dynsym = proc.dynsym ∧ u.dynstr = proc.dynstr ∧
      u.elfinfo = proc.elfinfo := by
  intro u
  simp only [u, reserveBrk]
  split
  · exact ⟨rfl, rfl, rfl, rfl⟩
  · exact ⟨rfl, rfl, rfl, rfl⟩

/-- A lookup reads the copies and the base. -/
theorem lfiProcSym_congr (hheap : proc'.heap = proc.heap) (hsym : proc'.dynsym = proc.dynsym)
    (hstr : proc'.dynstr = proc.dynstr) (hinfo : proc'.elfinfo = proc.elfinfo) (name : Bytes) :
    lfiProcSym proc' name = lfiProcSym proc name := by
  have hloop : ∀ n i, procSymFrom proc' name i n = procSymFrom proc name i n := by
    intro n
    induction n with
    | zero => exact fun _ => rfl
    | succ n ih =>
        intro i
        simp only [procSymFrom, LFILinuxProc.block, hheap, hsym, hstr, hinfo, ih]
  rw [lfiProcSym, lfiProcSym, hsym, hloop]

theorem resolves_of_no_symbol (hsize : proc.dynsym.size < sizeofSym)
    (hdefined : ∀ name d, elf.definedSym name = some d → (base + d.st_value) % 2 ^ 64 = 0) :
    SymbolsResolve base elf proc := by
  intro name
  rw [lfiProcSym_empty hsize]
  cases hd : elf.definedSym name with
  | none => rfl
  | some d => exact congrArg some (hdefined name d hd).symm

/-- A program's symbols resolve exactly if the first symbol of each name is defined and the
image starts at address 0, but for accidents. -/
theorem symbols_resolve_iff (hb : InSpace e r proc.box) (hnew : NoSymbols proc)
    (hok : procLoad e env o proc prog interp mapOp a = (true, proc')) :
    SymbolsResolve proc.box.min prog proc' ↔ BiasRight proc.box.min prog proc a := by
  obtain ⟨l, st₁, st₂, hl⟩ := procLoad_loaded hb hok
  have hroom := hb.min_add_code_lt
  have hbase := hl.elfbase
  rw [lowest_progSegs hb hl.image.valid] at hbase
  have hlt : ∀ x, prog.lowestStart = some x → proc.box.min + x < 2 ^ 64 := by
    intro x hx
    obtain ⟨p, hp, rfl⟩ := List.mem_map.mp (List.min?_mem hx)
    obtain ⟨hmem, hloads⟩ := mem_loads.mp hp
    have hstart := (hl.image.valid p hmem hloads).start_lt hloads
    have hstop := (hl.image.valid p hmem hloads).stop_lt
    omega
  obtain ⟨info, st, res, -, hsyms, hbrk⟩ := procLoad_steps hok
  obtain ⟨hheap, hsym, hstr, hinfo⟩ := reserveBrk_frame e o res.2
  rw [hbrk] at hheap hsym hstr hinfo
  rw [hinfo] at hbase
  have hsame : SymbolsResolve proc.box.min prog proc' ↔ SymbolsResolve proc.box.min prog res.2 := by
    refine forall_congr' fun name => ?_
    rw [lfiProcSym_congr hheap hsym hstr hinfo]
  rw [hsame, BiasRight]
  cases hsyms with
  | malformed hnone =>
      have htables := dynTables_of_none hnone
      have hlen : prog.dynTables.1.length < sizeofSym := by
        rw [htables]
        decide
      have hcopies : AllocatesCopies proc prog a := fun sym str ht => absurd ht (hnone sym str)
      refine iff_of_true ?_ (.inl ⟨hcopies, fun name s hs => ?_⟩)
      · refine resolves_of_no_symbol ?_ fun name d hd => ?_
        · rw [show (withImage proc interp info st).dynsym = proc.dynsym from rfl, hnew.dynsym]
          decide
        · rw [definedSym_of_length_lt hlen] at hd
          cases hd
      · rw [Buf.sym, htables] at hs
        cases hs
  | @noSym sym str ht hnone =>
      have hcopies : ¬AllocatesCopies proc prog a := by
        intro hcopies
        obtain ⟨p, heap, hsome, -⟩ := hcopies sym str ht
        cases hnone.symm.trans hsome
      simp only [hcopies, false_and, false_or, not_false_eq_true, true_and]
      rcases Nat.lt_or_ge sym.sh_size sizeofSym with hsmall | hlarge
      · have hlen : prog.dynTables.1.length < sizeofSym := by
          rw [dynTables_of_tables ht, length_contents ht.sym_le]
          exact hsmall
        have hdefined : ∀ name d, prog.definedSym name = some d →
            (proc.box.min + d.st_value) % 2 ^ 64 = 0 := by
          intro name d hd
          rw [definedSym_of_length_lt hlen] at hd
          cases hd
        refine iff_of_true (resolves_of_no_symbol hsmall hdefined) ⟨fun hlost => ?_, hdefined⟩
        exact absurd ((losesSyms_iff ht).mp hlost).2 (not_le.mpr hsmall)
      · refine iff_of_false (fun hres => ?_)
          fun hand => hand.1 ((losesSyms_iff ht).mpr ⟨hnone, hlarge⟩)
        have hread := hres []
        rw [lfiProcSym_null rfl hlarge] at hread
        cases hread
  | noStr ht halloc hp hcopies =>
      have hcopies : ¬AllocatesCopies proc prog a := hcopies
      have hkept : ¬LosesSyms proc prog a := fun hlost => halloc ((losesSyms_iff ht).mp hlost).1
      have hsize : ElfSection.zero.size < sizeofSym := by decide
      simp only [hcopies, hkept, false_and, false_or, not_false_eq_true, true_and]
      refine ⟨fun hres name d hd => ?_, resolves_of_no_symbol hsize⟩
      have hread := hres name
      rw [lfiProcSym_empty hsize, hd, Option.some_inj] at hread
      exact hread.symm
  | loaded ht halloc hsym hstr hsyms hstrs hinfo hentry hbox hhost hcopies =>
      have hcopies : AllocatesCopies proc prog a := hcopies
      simp only [hcopies, not_true_eq_false, false_and, or_false, true_and]
      have htables := dynTables_of_tables ht
      refine resolves_iff_of_copies ?_ ?_ hbase hb.min_ne_zero hlt (by omega)
      · rw [htables]
        exact hsyms
      · rw [htables]
        exact hstrs

/-- A file with the symbol `f` in its only segment, which is not at address 0: the symbol
table is its own string table. -/
def raisedFile : Buf where
  fd := -1
  data :=
    ehdrBytes 0x1040 1 120 1 ++ phdrBytes PF_R 0 0x1000 232 232 ++
      (leBytes 4 24 ++ zeros 20 ++ leBytes 8 184 ++ leBytes 8 48 ++ zeros 24) ++
      (leBytes 4 32 ++ zeros 2 ++ leBytes 2 1 ++ leBytes 8 0x1000 ++ zeros 8) ++
      (bytesOf ".dynsym" ++ zeros 1 ++ bytesOf "f" ++ zeros 15)
  size_lt := by decide +kernel

def raisedProc : LFILinuxProc :=
  (procLoad nopEngine richEnv ⟨false, 0⟩ newProc raisedFile none .elfMap ⟨some 1, some 2⟩).2

theorem procLoad_raisedFile :
    procLoad nopEngine richEnv ⟨false, 0⟩ newProc raisedFile none .elfMap ⟨some 1, some 2⟩ =
      (true, raisedProc) := eq_of_fst (by decide +kernel)

theorem symbols_resolve_raisedFile :
    SymbolsResolve newProc.box.min raisedFile raisedProc ↔
      BiasRight newProc.box.min raisedFile newProc ⟨some 1, some 2⟩ := by
  obtain ⟨r, hb⟩ := inSpace_newProc
  exact symbols_resolve_iff hb noSymbols_newProc procLoad_raisedFile

/-- The symbol is at the start of the segment, and its address is a page above it. -/
theorem raisedFile_misresolved :
    procLoad nopEngine richEnv ⟨false, 0⟩ newProc raisedFile none .elfMap ⟨some 1, some 2⟩ =
        (true, raisedProc) ∧
      raisedFile.definedSym (bytesOf "f") = some ⟨32, 1, 0x1000⟩ ∧
      lfiProcSym raisedProc (bytesOf "f") = some (newProc.box.min + 0x1000 + 0x1000) ∧
      ¬SymbolsResolve newProc.box.min raisedFile raisedProc := by
  have hdefined : raisedFile.definedSym (bytesOf "f") = some ⟨32, 1, 0x1000⟩ := by decide +kernel
  have hread : lfiProcSym raisedProc (bytesOf "f") = some (newProc.box.min + 0x1000 + 0x1000) := by
    decide +kernel
  refine ⟨procLoad_raisedFile, hdefined, hread, fun hres => ?_⟩
  have hsame := hres (bytesOf "f")
  rw [hread, hdefined] at hsame
  revert hsame
  decide

end LfiRuntime.Elf
