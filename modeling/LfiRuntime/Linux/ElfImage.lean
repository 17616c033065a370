import LfiRuntime.Linux.ElfLoop
import LfiRuntime.Linux.ElfTables

/-!
`elf_load_one`: one image, with the addresses that are stored for it.
-/

namespace LfiRuntime.Elf

open LfiRuntime.Align
open LfiRuntime.Box
open LfiRuntime.Config
open LfiRuntime.HostCalls
open LfiRuntime.Mmap
open LfiRuntime.Runs

/-- The program headers of a file. -/
def Buf.phdrs (elf : Buf) : List Phdr :=
  phdrsOf ((elf.data.drop elf.ehdr.e_phoff).take (sizeofPhdr * elf.ehdr.e_phnum)) elf.ehdr.e_phnum

/-- The file has a header that the loader accepts. -/
structure HeaderOk (env : LoadEnv) (elf : Buf) : Prop where
  ehdr_le : sizeofEhdr ≤ elf.size
  check : elfCheck elf.ehdr = true
  type : elf.ehdr.e_type = ET_DYN
  phnum_le : elf.ehdr.e_phnum ≤ PHNUM_MAX
  malloc : env.mallocOk elf = true
  phoff_lt : elf.ehdr.e_phoff < elf.size
  phdrs_le : elf.ehdr.e_phoff + sizeofPhdr * elf.ehdr.e_phnum ≤ elf.size
  entry_lt : elf.ehdr.e_entry < CODE_MAX

/-- The end of the highest segment, 0 if there is none. -/
def highest (segs : List SegArgs) : Nat := (segs.map SegArgs.stop).max?.getD 0

/-- The start of the lowest segment, 0 if there is none. -/
def lowest (segs : List SegArgs) : Nat := (segs.map SegArgs.start).min?.getD 0

section

variable {e : Engine} {env : LoadEnv} {elf : Buf} {mapOp : MapOp} {r : Region} {box box' : LFIBox}
  {h h' : Host} {base : Nat} {l : LoadedElf}

theorem elfLoadOne_eq (e : Engine) (env : LoadEnv) (box : LFIBox) (h : Host) (elf : Buf) (base : Nat)
    (mapOp : MapOp) :
    let ps := e.opts.pagesize
    let run := loadSegments e env elf ps mapOp base elf.phdrs ⟨box, h, base, 0, 0⟩
    ¬HeaderOk env elf ∧ elfLoadOne e env box h elf base ps mapOp = (none, box, h) ∨
      HeaderOk env elf ∧
        elfLoadOne e env box h elf base ps mapOp =
          (if run.1 = true then
            some ⟨run.2.first, run.2.last, add64 run.2.base elf.ehdr.e_entry, elf.ehdr⟩
          else none, run.2.box, run.2.host) := by
  intro ps run
  have hehdr : Ehdr.ofBytes ((elf.data.drop 0).take sizeofEhdr) = elf.ehdr := by
    rw [List.drop_zero, Buf.ehdr]
  have hlen : ((elf.data.drop 0).take sizeofEhdr).length = sizeofEhdr ↔ sizeofEhdr ≤ elf.size := by
    rw [List.drop_zero, List.length_take, Buf.size]
    omega
  simp only [elfLoadOne, bufRead_eq, Option.getD_some, hehdr]
  split
  · rename_i hshort
    exact .inl ⟨fun hh => hshort (hlen.mpr hh.ehdr_le), rfl⟩
  rename_i hread
  split
  · rename_i hbad
    refine .inl ⟨fun hh => ?_, rfl⟩
    rw [hh.check] at hbad
    cases hbad
  rename_i hcheck
  split
  · rename_i hbad
    exact .inl ⟨fun hh => hbad hh.type, rfl⟩
  rename_i htype
  split
  · rename_i hbad
    exact .inl ⟨fun hh => absurd hh.phnum_le (not_le.mpr hbad), rfl⟩
  rename_i hphnum
  split
  · rename_i hbad
    refine .inl ⟨fun hh => ?_, rfl⟩
    rw [hh.malloc] at hbad
    cases hbad
  rename_i hmalloc
  split
  · rename_i hbad
    exact .inl ⟨fun hh => absurd hh.phoff_lt (not_lt.mpr hbad), rfl⟩
  rename_i hphoff
  have htable : ((elf.data.drop elf.ehdr.e_phoff).take (sizeofPhdr * elf.ehdr.e_phnum)).length =
      sizeofPhdr * elf.ehdr.e_phnum ↔
        elf.ehdr.e_phoff + sizeofPhdr * elf.ehdr.e_phnum ≤ elf.size := by
    rw [List.length_take, List.length_drop]
    rw [Buf.size] at hphoff ⊢
    omega
  split
  · rename_i hshort
    exact .inl ⟨fun hh => hshort (htable.mpr hh.phdrs_le), rfl⟩
  rename_i hphdrs
  split
  · rename_i hbad
    exact .inl ⟨fun hh => absurd hh.entry_lt (not_lt.mpr hbad), rfl⟩
  rename_i hentry
  refine .inr ⟨⟨hlen.mp (not_not.mp hread), by simpa using hcheck, not_not.mp htype, by omega,
    by simpa using hmalloc, by omega, htable.mp (not_not.mp hphdrs), by omega⟩, ?_⟩
  change (if (!run.1) = true then (none, run.2.box, run.2.host) else _) = _
  cases run.1 with
  | true => rfl
  | false => rfl

theorem inRange_phdrs (elf : Buf) : ∀ p ∈ elf.phdrs, p.InRange := fun _ hp => Phdr.inRange_of_mem hp

/-- Whether an image is loaded or not, nothing changes outside of the box. -/
theorem only_elfLoadOne (hps : IsAlign e.opts.pagesize) (hw : Works e r box)
    (hbase : e.opts.pagesize ∣ base) :
    let u := elfLoadOne e env box h elf base e.opts.pagesize .elfMap
    Only e r box.min (box.max - box.min) box h u.2.1 u.2.2 := by
  intro u
  have hrun := @only_loadSegments e env elf base elf.phdrs ⟨box, h, base, 0, 0⟩ _
    hps hw (inRange_phdrs elf) hbase
  rcases elfLoadOne_eq e env box h elf base .elfMap with ⟨-, heq⟩ | ⟨-, heq⟩
  · simp only [u, heq]
    exact .refl hw _ _ _
  · simp only [u, heq]
    exact hrun

/-- An image that has been loaded. -/
structure Image (e : Engine) (env : LoadEnv) (elf : Buf) (mapOp : MapOp) (base : Nat) (st : State)
    (l : LoadedElf) (st' : State) : Prop where
  header : HeaderOk env elf
  ehdr : l.ehdr = elf.ehdr
  valid : ∀ p ∈ elf.phdrs, p.Loads → p.Valid e.opts.pagesize
  trace : Trace (SegStep e env elf mapOp) st (segsAt (env.bti elf) base elf.phdrs) st'

theorem image_of_loaded
    (hok : elfLoadOne e env box h elf base e.opts.pagesize mapOp = (some l, box', h')) :
    ∃ s',
      loadSegments e env elf e.opts.pagesize mapOp base elf.phdrs ⟨box, h, base, 0, 0⟩ = (true, s') ∧
      s'.state = ⟨box', h'⟩ ∧ l.first = s'.first ∧ l.last = s'.last ∧
        l.entry = add64 s'.base elf.ehdr.e_entry ∧
        Image e env elf mapOp base ⟨box, h⟩ l ⟨box', h'⟩ := by
  rcases elfLoadOne_eq e env box h elf base mapOp with ⟨-, heq⟩ | ⟨hheader, heq⟩
  · rw [heq] at hok
    cases (Prod.mk.inj hok).1
  rw [heq] at hok
  generalize hrun : loadSegments e env elf e.opts.pagesize mapOp base elf.phdrs
    ⟨box, h, base, 0, 0⟩ = run at hok
  obtain ⟨ok, s'⟩ := run
  cases ok with
  | false => cases (Prod.mk.inj hok).1
  | true =>
      obtain ⟨hl, hstate⟩ := Prod.mk.inj hok
      obtain rfl := Option.some.inj hl
      obtain ⟨rfl, rfl⟩ := Prod.mk.inj hstate
      obtain ⟨hvalid, htrace⟩ := (loadSegments_iff (inRange_phdrs elf)).mp ⟨s', hrun, rfl⟩
      exact ⟨s', rfl, rfl, rfl, rfl, rfl, hheader, rfl, hvalid, htrace⟩

theorem Image.fits {st st' : State} (hi : Image e env elf mapOp base st l st')
    (hps : IsAlign e.opts.pagesize) (hbase : e.opts.pagesize ∣ base) :
    ∀ s ∈ segsAt (env.bti elf) base elf.phdrs, s.Fits e.opts.pagesize :=
  fits_of_mem hps hbase hi.valid

theorem Image.took {st st' : State} (hi : Image e env elf mapOp base st l st') (hw : Works e r st.box)
    (hps : IsAlign e.opts.pagesize) (hbase : e.opts.pagesize ∣ base) :
    AllTook e r (segsAt (env.bti elf) base elf.phdrs) st st' :=
  allTook_of_trace hw (hi.fits hps hbase) hi.trace

theorem Image.loaded {st st' : State} (hi : Image e env elf .elfMap base st l st')
    (hw : Works e r st.box) (hps : IsAlign e.opts.pagesize) (hbase : e.opts.pagesize ∣ base) :
    AllLoaded e r elf (segsAt (env.bti elf) base elf.phdrs) st st' :=
  allLoaded_of_trace hw (hi.fits hps hbase) hi.trace

theorem start_ne_zero {segs : List SegArgs} (hmin : 0 < box.min)
    (hvalid : ∀ s ∈ segs, lfiBoxBufvalid box s.start s.size = true) :
    ∀ x ∈ segs.map SegArgs.start, x ≠ 0 := by
  intro x hx
  obtain ⟨s, hs, rfl⟩ := List.mem_map.mp hx
  have hbuf := hvalid s hs
  simp only [lfiBoxBufvalid, Bool.and_eq_true, decide_eq_true_eq] at hbuf
  omega

/-- What is stored for an image that has a base. -/
theorem image_numbers (hw : Works e r box) (hps : IsAlign e.opts.pagesize) (hmin : 0 < box.min)
    (hdvd : e.opts.pagesize ∣ base) (hbase : base ≠ 0)
    (hok : elfLoadOne e env box h elf base e.opts.pagesize mapOp = (some l, box', h')) :
    let segs := segsAt (env.bti elf) base elf.phdrs
    Image e env elf mapOp base ⟨box, h⟩ l ⟨box', h'⟩ ∧ l.first = lowest segs ∧
      l.last = highest segs ∧ l.entry = add64 base elf.ehdr.e_entry := by
  intro segs
  obtain ⟨s', hrun, -, hfirst, hlast, hentry, himage⟩ := image_of_loaded hok
  obtain ⟨hbase', hfirst', hlast'⟩ := loadSegments_numbers (inRange_phdrs elf) hbase hrun
  have htook := himage.took hw hps hdvd
  have hnz := start_ne_zero hmin htook.valid
  have hsegs : segs = (elf.phdrs.filter (·.Loads)).map (·.seg (env.bti elf) base) := segsAt_eq hbase
  have hstarts : segs.map SegArgs.start = (elf.phdrs.filter (·.Loads)).map (add64 base ·.start) := by
    rw [hsegs, List.map_map]
    rfl
  have hstops : segs.map SegArgs.stop = (elf.phdrs.filter (·.Loads)).map (add64 base ·.stop) := by
    rw [hsegs, List.map_map]
    rfl
  refine ⟨himage, ?_, ?_, ?_⟩
  · rw [hfirst, hfirst', ← hstarts, lowest, foldl_firstOf hnz]
  · rw [hlast, hlast', ← hstops, highest, foldl_max_zero]
  · rw [hentry, hbase']

/-- What is stored for an image that has no base. -/
theorem image_numbers_zero (hw : Works e r box) (hps : IsAlign e.opts.pagesize) (hmin : 0 < box.min)
    (hok : elfLoadOne e env box h elf 0 e.opts.pagesize mapOp = (some l, box', h')) :
    Image e env elf mapOp 0 ⟨box, h⟩ l ⟨box', h'⟩ ∧
      (segsAt (env.bti elf) 0 elf.phdrs = [] ∧ l.last = 0 ∧ l.entry = elf.ehdr.e_entry ∨
        ∃ s₁ rest, segsAt (env.bti elf) 0 elf.phdrs = s₁ :: rest ∧
          l.last = max (add64 s₁.start s₁.stop) (highest rest) ∧
            l.entry = add64 s₁.start elf.ehdr.e_entry) := by
  obtain ⟨s', hrun, -, -, hlast, hentry, himage⟩ := image_of_loaded hok
  refine ⟨himage, ?_⟩
  have hvalid := (himage.took hw hps (dvd_zero _)).valid
  have hsmall := himage.header.entry_lt
  have hcode : CODE_MAX < 2 ^ 64 := by decide
  rcases loadSegments_numbers_zero (inRange_phdrs elf) rfl rfl hrun with
    ⟨hnil, hbase', hlast'⟩ | ⟨s₁, rest, hsegs, hnumbers⟩
  · refine .inl ⟨hnil, by rw [hlast, hlast'], ?_⟩
    rw [hentry, hbase', add64_eq (by omega), Nat.zero_add]
  · have hnz := start_ne_zero hmin hvalid
    rw [hsegs] at hnz
    obtain ⟨hbase', hlast'⟩ := hnumbers (hnz _ (List.mem_cons_self))
    refine .inr ⟨s₁, rest, hsegs, ?_, by rw [hentry, hbase']⟩
    rw [hlast, hlast', highest, ← foldl_max_zero,
      ← @List.foldl_assoc Nat max _, Nat.max_zero]

end

end LfiRuntime.Elf
