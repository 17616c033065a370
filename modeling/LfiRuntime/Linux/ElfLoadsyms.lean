import LfiRuntime.Linux.ElfTables

/-!
`elf_loadsyms`, with every outcome of its two allocations.
-/

namespace LfiRuntime.Elf

open LfiRuntime.Box
open LfiRuntime.ByteString
open LfiRuntime.Handles
open LfiRuntime.PagedMemory

variable {elf : Buf} {proc : LFILinuxProc} {a : Allocs} {heap heap' : Heap} {answer : Option Ptr}
  {p q : Ptr} {bytes : Bytes} {n size : Nat} {sym str : Shdr}

/-- Any name can be looked up. -/
def Searchable (proc : LFILinuxProc) : Prop := ∀ name, (lfiProcSym proc name).isSome

/-- The two sections of a file that has them, both within the file. -/
structure Tables (elf : Buf) (sym str : Shdr) : Prop where
  found : loadDynshs elf = some (some (sym, str))
  sym_le : sym.sh_offset + sym.sh_size ≤ elf.size
  str_le : str.sh_offset + str.sh_size ≤ elf.size

theorem Tables.unique {sym' str' : Shdr} (h : Tables elf sym str) (h' : Tables elf sym' str') :
    sym = sym' ∧ str = str' := by
  simpa [h.found] using h'.found

/-- How much `elf_loadsyms` allocates for a section. -/
def allocSize (sh : Shdr) : Nat := if sh.sh_size ≠ 0 then sh.sh_size else 1

theorem malloc_some (h : malloc heap answer n = some (p, heap')) :
    answer = some p ∧ heap.content p = none ∧ heap' = heap.create p (List.replicate n 0) := by
  obtain ⟨p', rfl, hp⟩ := Option.bind_eq_some_iff.mp h
  rw [Option.ite_none_right_eq_some] at hp
  obtain ⟨hnone, heq⟩ := hp
  obtain ⟨rfl, rfl⟩ := Prod.mk.inj (Option.some.inj heq)
  exact ⟨rfl, Option.isNone_iff_eq_none.mp hnone, rfl⟩

/-- A new block with the bytes of a section. -/
theorem content_copyInto (bytes : Bytes) (n : Nat) :
    (copyInto (heap.create p (List.replicate n 0)) p bytes).content =
      Function.update heap.content p (some (bytes ++ (List.replicate n 0).drop bytes.length)) := by
  rw [copyInto, Ledger.content_write]
  · simp
  · simp

theorem slice_append (bytes rest : Bytes) : slice (bytes ++ rest) 0 bytes.length = some bytes := by
  rw [slice_of_le (by simp)]
  simp

theorem length_contents {sh : Shdr} (h : sh.sh_offset + sh.sh_size ≤ elf.size) :
    (elf.contents sh).length = sh.sh_size := by
  rw [Buf.size] at h
  simp [Buf.contents]
  omega

/-- With the symbols in place, the addresses of the library functions are all that
`load_libsyms` changes. -/
theorem loadLibsyms_eq (h : Searchable proc) :
    ∃ libsyms, loadLibsyms proc = some (true, { proc with libsyms := libsyms }) := by
  have hload : ∀ name, ∃ r, loadsym proc name = some r := by
    intro name
    obtain ⟨bp, hbp⟩ := Option.isSome_iff_exists.mp (h name)
    unfold loadsym
    simp only [hbp, Option.bind_eq_bind, Option.bind_some]
    split
    · exact ⟨none, rfl⟩
    · split
      · exact ⟨none, rfl⟩
      · exact ⟨some bp, rfl⟩
  obtain ⟨_, h1⟩ := hload (bytesOf "_lfi_thread_create")
  obtain ⟨_, h2⟩ := hload (bytesOf "_lfi_thread_destroy")
  obtain ⟨_, h3⟩ := hload (bytesOf "_lfi_malloc")
  obtain ⟨_, h4⟩ := hload (bytesOf "_lfi_realloc")
  obtain ⟨_, h5⟩ := hload (bytesOf "_lfi_calloc")
  obtain ⟨_, h6⟩ := hload (bytesOf "_lfi_free")
  obtain ⟨_, h7⟩ := hload (bytesOf "_lfi_setjmp")
  unfold loadLibsyms
  simp only [h1, h2, h3, h4, h5, h6, h7, Option.bind_eq_bind, Option.bind_some]
  exact ⟨_, rfl⟩

/-- Both copies can be allocated. -/
def AllocatesCopies (proc : LFILinuxProc) (elf : Buf) (a : Allocs) : Prop :=
  ∀ sym str, Tables elf sym str → ∃ p heap,
    malloc proc.heap a.dynsym (allocSize sym) = some (p, heap) ∧
      (malloc (copyInto heap p (elf.contents sym)) a.dynstr (allocSize str)).isSome

/-- What `elf_loadsyms` can do. -/
inductive Loadsyms (proc : LFILinuxProc) (elf : Buf) (a : Allocs) : Bool × LFILinuxProc → Prop
  | malformed (h : ∀ sym str, ¬Tables elf sym str) : Loadsyms proc elf a (false, proc)
  | noSym {sym str : Shdr} (h : Tables elf sym str)
      (hnone : malloc proc.heap a.dynsym (allocSize sym) = none) :
      Loadsyms proc elf a (false, { proc with dynsym := ⟨none, sym.sh_size⟩ })
  | noStr {sym str : Shdr} {p : Ptr} (h : Tables elf sym str)
      (halloc : malloc proc.heap a.dynsym (allocSize sym) ≠ none)
      (hp : proc.heap.content p = none) (hcopies : ¬AllocatesCopies proc elf a) :
      Loadsyms proc elf a (false,
        { proc with
          heap := (copyInto (proc.heap.create p (List.replicate (allocSize sym) 0)) p
            (elf.contents sym)).close p
          dynsym := .zero
          dynstr := ⟨none, str.sh_size⟩ })
  | loaded {sym str : Shdr} {p q : Ptr} {proc' : LFILinuxProc} (h : Tables elf sym str)
      (halloc : malloc proc.heap a.dynsym (allocSize sym) ≠ none)
      (hsym : proc'.dynsym = ⟨some p, sym.sh_size⟩) (hstr : proc'.dynstr = ⟨some q, str.sh_size⟩)
      (hsyms : proc'.contents proc'.dynsym = some (elf.contents sym))
      (hstrs : proc'.contents proc'.dynstr = some (elf.contents str))
      (hbase : proc'.elfinfo = proc.elfinfo) (hentry : proc'.entry = proc.entry)
      (hbox : proc'.box = proc.box) (hhost : proc'.host = proc.host)
      (hcopies : AllocatesCopies proc elf a) :
      Loadsyms proc elf a (true, proc')

/-- The state with both copies. -/
def withCopies (proc : LFILinuxProc) (elf : Buf) (sym str : Shdr) (p q : Ptr) : LFILinuxProc :=
  { proc with
    heap := copyInto ((copyInto (proc.heap.create p (List.replicate (allocSize sym) 0)) p
      (elf.contents sym)).create q (List.replicate (allocSize str) 0)) q (elf.contents str)
    dynsym := ⟨some p, sym.sh_size⟩
    dynstr := ⟨some q, str.sh_size⟩ }

theorem contents_withCopies (h : Tables elf sym str)
    (hq : (copyInto (proc.heap.create p (List.replicate (allocSize sym) 0)) p
      (elf.contents sym)).content q = none) :
    (withCopies proc elf sym str p q).contents ⟨some p, sym.sh_size⟩ = some (elf.contents sym) ∧
      (withCopies proc elf sym str p q).contents ⟨some q, str.sh_size⟩ =
        some (elf.contents str) := by
  have hne : p ≠ q := by
    rintro rfl
    simp [content_copyInto] at hq
  have hheap := @content_copyInto (copyInto (proc.heap.create p (List.replicate (allocSize sym) 0)) p
      (elf.contents sym)) q (elf.contents str) (allocSize str)
  constructor
  · have hblock : (withCopies proc elf sym str p q).block ⟨some p, sym.sh_size⟩ =
        some (elf.contents sym ++
          (List.replicate (allocSize sym) 0).drop (elf.contents sym).length) := by
      simp only [LFILinuxProc.block, withCopies, Option.bind_some, hheap, content_copyInto]
      rw [Function.update_of_ne hne, Function.update_self]
    rw [LFILinuxProc.contents, hblock, Option.bind_some, ← length_contents h.sym_le, slice_append]
  · have hblock : (withCopies proc elf sym str p q).block ⟨some q, str.sh_size⟩ =
        some (elf.contents str ++
          (List.replicate (allocSize str) 0).drop (elf.contents str).length) := by
      simp only [LFILinuxProc.block, withCopies, Option.bind_some, hheap]
      rw [Function.update_self]
    rw [LFILinuxProc.contents, hblock, Option.bind_some, ← length_contents h.str_le, slice_append]

theorem searchable_of_contents {syms strs : Bytes} (hsyms : proc.contents proc.dynsym = some syms)
    (hstrs : proc.contents proc.dynstr = some strs) : Searchable proc := by
  intro name
  rw [lfiProcSym_eq hsyms hstrs]
  rfl

theorem elfLoadsyms_cases (proc : LFILinuxProc) (elf : Buf) (a : Allocs) :
    ∃ r, elfLoadsyms proc elf a = some r ∧ Loadsyms proc elf a r := by
  obtain ⟨tables, htables, -⟩ := loadDynshs_spec elf
  unfold elfLoadsyms
  rw [htables]
  simp only [Option.bind_eq_bind, Option.bind_some]
  cases tables with
  | none => exact ⟨_, rfl, .malformed fun sym str h => by simpa [htables] using h.found⟩
  | some tables =>
      obtain ⟨sym, str⟩ := tables
      simp only
      split
      · rename_i hregion
        refine ⟨_, rfl, .malformed fun sym' str' h => ?_⟩
        obtain ⟨rfl, rfl⟩ : sym = sym' ∧ str = str' := by simpa [htables] using h.found
        rw [regionOk_iff.mpr h.sym_le, regionOk_iff.mpr h.str_le] at hregion
        cases hregion
      · rename_i hregion
        simp only [Bool.or_eq_true, Bool.not_eq_true', not_or, Bool.not_eq_false, regionOk_iff]
          at hregion
        have ht : Tables elf sym str := ⟨htables, hregion.1, hregion.2⟩
        rw [← allocSize, ← allocSize]
        cases hsym : malloc proc.heap a.dynsym (allocSize sym) with
        | none => exact ⟨_, rfl, .noSym ht hsym⟩
        | some r =>
            obtain ⟨p, heap⟩ := r
            obtain ⟨-, hp, rfl⟩ := malloc_some hsym
            simp only [slice_of_le ht.sym_le, slice_of_le ht.str_le, Option.bind_some]
            rw [← Buf.contents, ← Buf.contents]
            split
            · rename_i hstr
              refine ⟨_, rfl, .noStr ht (by simp [hsym]) hp fun hcopies => ?_⟩
              obtain ⟨p', heap', hsym', hsome⟩ := hcopies sym str ht
              rw [hsym] at hsym'
              obtain ⟨rfl, rfl⟩ := Prod.mk.inj (Option.some.inj hsym')
              rw [hstr] at hsome
              cases hsome
            · rename_i q heap hstr
              have hcopies : AllocatesCopies proc elf a := by
                intro sym' str' h'
                obtain ⟨rfl, rfl⟩ := ht.unique h'
                exact ⟨p, _, hsym, by rw [hstr]; rfl⟩
              obtain ⟨-, hq, rfl⟩ := malloc_some hstr
              obtain ⟨hsyms, hstrs⟩ := contents_withCopies ht hq
              obtain ⟨libsyms, hlibs⟩ := loadLibsyms_eq (searchable_of_contents hsyms hstrs)
              rw [← withCopies, hlibs]
              exact ⟨_, rfl, .loaded ht (by simp [hsym]) rfl rfl hsyms hstrs rfl rfl rfl rfl hcopies⟩

/-- The copy of `.dynsym` cannot be allocated, and it would hold a symbol. -/
def LosesSyms (proc : LFILinuxProc) (elf : Buf) (a : Allocs) : Prop :=
  ∃ sym str, Tables elf sym str ∧ malloc proc.heap a.dynsym (allocSize sym) = none ∧
    sizeofSym ≤ sym.sh_size

theorem losesSyms_iff (h : Tables elf sym str) : LosesSyms proc elf a ↔
    malloc proc.heap a.dynsym (allocSize sym) = none ∧ sizeofSym ≤ sym.sh_size := by
  constructor
  · rintro ⟨sym', str', h', hnone, hsize⟩
    obtain ⟨rfl, rfl⟩ := h.unique h'
    exact ⟨hnone, hsize⟩
  · rintro ⟨hnone, hsize⟩
    exact ⟨sym, str, h, hnone, hsize⟩

/-! No read leaves the file or a copy. -/

/-- The functions that read the file stay in it, whatever its bytes; so do lookups of any
name in the copies; and with success the copies are those of `.dynsym` and of what it
links to. -/
structure Safe (proc : LFILinuxProc) (elf : Buf) (a : Allocs) (mallocOk : Bool) : Prop where
  interp : (elfInterp elf mallocOk).isSome
  dynshs : (loadDynshs elf).isSome
  dynamic : (elfDynamic elf).isSome
  loadsyms : ∃ r, elfLoadsyms proc elf a = some r ∧ Searchable r.2 ∧
    (r.1 = true → ∃ i, IsDynsym elf i ∧
      r.2.contents r.2.dynsym = some (elf.contents (elf.shdr i)) ∧
      r.2.contents r.2.dynstr = some (elf.contents (elf.shdr (elf.shdr i).sh_link)))

theorem elfInterp_isSome (elf : Buf) (mallocOk : Bool) : (elfInterp elf mallocOk).isSome := by
  unfold elfInterp
  simp only [bufRead_eq, Option.bind_eq_bind, Option.bind_some]
  split
  · rfl
  split
  · rfl
  split
  · rfl
  split
  · rfl
  split
  · rfl
  · split_ifs <;> rfl

theorem elfDynamicFrom_isSome (elf : Buf) (ehdr : Ehdr) (x n : Nat) :
    (elfDynamicFrom elf ehdr x n).isSome := by
  induction n generalizing x with
  | zero => rfl
  | succ n ih =>
      rw [elfDynamicFrom, bufRead_eq]
      simp only [Option.bind_eq_bind, Option.bind_some]
      split_ifs
      · rfl
      · rfl
      · exact ih (x + 1)

theorem elfDynamic_isSome (elf : Buf) : (elfDynamic elf).isSome := by
  unfold elfDynamic
  simp only [bufRead_eq, Option.bind_eq_bind, Option.bind_some]
  split_ifs
  · rfl
  · exact elfDynamicFrom_isSome ..

theorem searchable_of_small (h : proc.dynsym.size < sizeofSym) : Searchable proc := by
  intro name
  rw [lfiProcSym_empty h]
  rfl

theorem not_searchable_of_null (hnull : proc.dynsym.data = none)
    (h : sizeofSym ≤ proc.dynsym.size) : ¬Searchable proc := by
  intro hall
  have hsome := hall []
  rw [lfiProcSym_null (by rw [LFILinuxProc.block, hnull]; rfl) h] at hsome
  cases hsome

theorem searchable_iff {r : Bool × LFILinuxProc} (h : Searchable proc) (hr : Loadsyms proc elf a r) :
    Searchable r.2 ↔ ¬LosesSyms proc elf a := by
  cases hr with
  | malformed hmal => exact iff_of_true h fun ⟨sym, str, ht, _⟩ => hmal sym str ht
  | noSym ht hnone =>
      rw [losesSyms_iff ht]
      constructor
      · intro hall hlost
        exact not_searchable_of_null rfl hlost.2 hall
      · intro hkept
        apply searchable_of_small
        exact Nat.lt_of_not_le fun hle => hkept ⟨hnone, hle⟩
  | noStr ht halloc hp =>
      rw [losesSyms_iff ht]
      exact iff_of_true (searchable_of_small (show 0 < sizeofSym by decide))
        fun hlost => halloc hlost.1
  | loaded ht halloc hsym hstr hsyms hstrs hbase =>
      rw [losesSyms_iff ht]
      exact iff_of_true (searchable_of_contents hsyms hstrs) fun hlost => halloc hlost.1

theorem copies_of_loaded {r : Bool × LFILinuxProc} (hr : Loadsyms proc elf a r) (hok : r.1 = true) :
    ∃ i, IsDynsym elf i ∧ r.2.contents r.2.dynsym = some (elf.contents (elf.shdr i)) ∧
      r.2.contents r.2.dynstr = some (elf.contents (elf.shdr (elf.shdr i).sh_link)) := by
  cases hr with
  | malformed => cases hok
  | noSym => cases hok
  | noStr => cases hok
  | loaded ht halloc hsym hstr hsyms hstrs hbase =>
      obtain ⟨r, hr, hfinds⟩ := loadDynshs_spec elf
      rw [ht.found] at hr
      obtain ⟨i, hi, rfl, rfl⟩ := hfinds _ _ (Option.some.inj hr).symm
      exact ⟨i, hi, hsyms, hstrs⟩

theorem symbols_safe_iff (h : Searchable proc) (elf : Buf) (a : Allocs) (mallocOk : Bool) :
    Safe proc elf a mallocOk ↔ ¬LosesSyms proc elf a := by
  obtain ⟨r, heq, hr⟩ := elfLoadsyms_cases proc elf a
  constructor
  · rintro ⟨-, -, -, r', heq', hall, -⟩
    obtain rfl : r = r' := Option.some.inj (heq.symm.trans heq')
    exact (searchable_iff h hr).mp hall
  · intro hkept
    refine ⟨elfInterp_isSome elf mallocOk, ?_, elfDynamic_isSome elf, r, heq,
      (searchable_iff h hr).mpr hkept, copies_of_loaded hr⟩
    obtain ⟨tables, htables, -⟩ := loadDynshs_spec elf
    rw [htables]
    rfl

/-! What a failure leaves. -/

/-- After a failure every name has the address zero, and the process frees what it has
allocated for the symbols once. -/
def FailsClean (proc : LFILinuxProc) (elf : Buf) (a : Allocs) : Prop :=
  ∀ proc', elfLoadsyms proc elf a = some (false, proc') →
    (∀ name, lfiProcSym proc' name = some 0) ∧ Settled (destroySyms proc').heap

/-- A process that has loaded no symbols, and holds no block for them. -/
structure NoSymbols (proc : LFILinuxProc) : Prop where
  dynsym : proc.dynsym = .zero
  dynstr : proc.dynstr = .zero
  heap : Keeps proc.heap fun _ : Unit => none

theorem NoSymbols.settled (h : NoSymbols proc) : Settled (destroySyms proc).heap := by
  simp only [destroySyms, h.dynsym, h.dynstr, ElfSection.zero, free]
  exact h.heap.settled fun _ => rfl

/-- A block that is allocated, filled and freed. -/
theorem settled_release (h : Keeps heap fun _ : Unit => none) (hp : heap.content p = none)
    (block bytes : Bytes) : Settled ((copyInto (heap.create p block) p bytes).close p) := by
  have hcreated : Keeps (heap.create p block) (Function.update (fun _ : Unit => none) () (some p)) :=
    h.create hp rfl
  have hfilled : Keeps (copyInto (heap.create p block) p bytes)
      (Function.update (fun _ : Unit => none) () (some p)) := hcreated.write
  refine (hfilled.close (x := ()) (Function.update_self ..)).settled fun x => ?_
  simp

theorem failed_loadsyms_iff (h : NoSymbols proc) (elf : Buf) (a : Allocs) :
    FailsClean proc elf a ↔ ¬LosesSyms proc elf a := by
  obtain ⟨r, heq, hr⟩ := elfLoadsyms_cases proc elf a
  have hclean : FailsClean proc elf a ↔
      (r.1 = false → (∀ name, lfiProcSym r.2 name = some 0) ∧ Settled (destroySyms r.2).heap) := by
    simp only [FailsClean, heq, Option.some.injEq]
    constructor
    · intro hall hfail
      exact hall r.2 (Prod.ext hfail rfl)
    · rintro hall proc' rfl
      exact hall rfl
  rw [hclean]
  cases hr with
  | malformed hmal =>
      refine iff_of_true (fun _ => ⟨lfiProcSym_empty ?_, h.settled⟩)
        fun ⟨sym, str, ht, _⟩ => hmal sym str ht
      rw [h.dynsym]
      decide
  | noSym ht hnone =>
      rw [losesSyms_iff ht]
      constructor
      · rintro hall ⟨-, hsize⟩
        have hzero := (hall rfl).1 []
        rw [lfiProcSym_null rfl hsize] at hzero
        cases hzero
      · intro hkept _
        refine ⟨lfiProcSym_empty (Nat.lt_of_not_le fun hle => hkept ⟨hnone, hle⟩), ?_⟩
        simp only [destroySyms, h.dynstr, ElfSection.zero, free]
        exact h.heap.settled fun _ => rfl
  | noStr ht halloc hp =>
      rw [losesSyms_iff ht]
      refine iff_of_true (fun _ => ⟨lfiProcSym_empty (show 0 < sizeofSym by decide), ?_⟩)
        fun hlost => halloc hlost.1
      simp only [destroySyms, ElfSection.zero, free]
      exact settled_release h.heap hp _ _
  | loaded ht halloc hsym hstr hsyms hstrs hbase =>
      rw [losesSyms_iff ht]
      exact iff_of_true (fun hfail => nomatch hfail) fun hlost => halloc hlost.1

/-! A file that is nothing but the section `.dynsym`, which is its own string table. -/

def zeros (n : Nat) : Bytes := List.replicate n 0

def dynsymFile : Buf where
  fd := -1
  data :=
    ELFMAG ++ zeros 36 ++ leBytes 8 64 ++ zeros 10 ++ leBytes 2 64 ++ leBytes 2 1 ++ zeros 2 ++
      (zeros 24 ++ leBytes 8 128 ++ leBytes 8 24 ++ zeros 24) ++ (bytesOf ".dynsym" ++ zeros 17)
  size_lt := by decide +kernel

/-- A process that was just created. -/
def newProc : LFILinuxProc where
  box := emptyBox
  host := ⟨{ pages := fun _ => none, priv := fun _ => 0, files := fun _ _ => 0 }, [], []⟩
  heap := .empty
  entry := 0
  elfinfo := ⟨0, 0, 0, 0, 0, 0, 0, 0⟩
  dynsym := .zero
  dynstr := .zero
  libsyms := ⟨0, 0, 0, 0, 0, 0, 0⟩
  brkbase := 0
  brksize := 0

theorem tables_dynsymFile : Tables dynsymFile ⟨0, 128, 24, 0⟩ ⟨0, 128, 24, 0⟩ :=
  ⟨by decide +kernel, by decide +kernel, by decide +kernel⟩

theorem noSymbols_newProc : NoSymbols newProc := ⟨rfl, rfl, keeps_empty⟩

theorem searchable_newProc : Searchable newProc := searchable_of_small (by decide)

theorem losesSyms_dynsymFile : LosesSyms newProc dynsymFile ⟨none, some 2⟩ :=
  (losesSyms_iff tables_dynsymFile).mpr ⟨rfl, by decide⟩

theorem dynsymFile_safe : Safe newProc dynsymFile ⟨some 1, some 2⟩ true :=
  (symbols_safe_iff searchable_newProc dynsymFile ⟨some 1, some 2⟩ true).mpr fun hlost => by
    simpa [malloc, newProc, Ledger.empty, Ledger.content] using
      ((losesSyms_iff tables_dynsymFile).mp hlost).1

/-- Without the copy of `.dynsym` the first lookup reads through the null pointer. -/
theorem dynsymFile_not_safe : ¬Safe newProc dynsymFile ⟨none, some 2⟩ true := by
  rintro ⟨-, -, -, r, heq, hall, -⟩
  obtain ⟨r', heq', hr⟩ := elfLoadsyms_cases newProc dynsymFile ⟨none, some 2⟩
  obtain rfl : r' = r := Option.some.inj (heq'.symm.trans heq)
  exact (searchable_iff searchable_newProc hr).mp hall losesSyms_dynsymFile

theorem dynsymFile_failsClean : FailsClean newProc dynsymFile ⟨some 1, none⟩ :=
  (failed_loadsyms_iff noSymbols_newProc dynsymFile ⟨some 1, none⟩).mpr fun hlost => by
    simpa [malloc, newProc, Ledger.empty, Ledger.content] using
      ((losesSyms_iff tables_dynsymFile).mp hlost).1

theorem dynsymFile_not_failsClean : ¬FailsClean newProc dynsymFile ⟨none, some 2⟩ := by
  intro hclean
  obtain ⟨r, heq, hr⟩ := elfLoadsyms_cases newProc dynsymFile ⟨none, some 2⟩
  have hlost := mt (searchable_iff searchable_newProc hr).mp (not_not.mpr losesSyms_dynsymFile)
  obtain ⟨ok, proc'⟩ := r
  cases ok with
  | true =>
      cases hr with
      | loaded _ _ _ _ hsyms hstrs => exact hlost (searchable_of_contents hsyms hstrs)
  | false =>
      refine hlost fun name => ?_
      rw [(hclean proc' heq).1 name]
      rfl

end LfiRuntime.Elf
