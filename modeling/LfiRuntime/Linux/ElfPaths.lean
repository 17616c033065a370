import LfiRuntime.Linux.ElfAccept

/-!
The two ways of loading a file: `lfi_proc_load_fd`, which maps it, and `lfi_proc_load`,
which copies it.
-/

namespace LfiRuntime.Elf

open LfiRuntime.Align
open LfiRuntime.Box
open LfiRuntime.Brk
open LfiRuntime.ByteString
open LfiRuntime.Config
open LfiRuntime.HostCalls
open LfiRuntime.Layers
open LfiRuntime.Mmap
open LfiRuntime.PagedMemory

/-- A file with a descriptor, and the same bytes in memory. -/
structure SameFile (files : Int → Nat → UInt8) (file mem : Buf) : Prop where
  data : file.data = mem.data
  fd : 0 ≤ file.fd
  memFd : mem.fd = -1
  files : ∀ i, files file.fd i = mem.data.getD i 0

/-- The host looks at the bytes of a file only. -/
def ByBytes (env : LoadEnv) : Prop := ∀ b b' : Buf, b.data = b'.data →
  env.bti b = env.bti b' ∧ env.mallocOk b = env.mallocOk b'

/-- The byte that the segment has at an address where it is mapped from a file. -/
def Phdr.mappedAt (elf : Buf) (p : Phdr) (x : Nat) : UInt8 :=
  if p.p_filesz < p.p_memsz ∧ p.p_vaddr + p.p_filesz ≤ x then 0
  else elf.data.getD (p.p_offset - p.p_offset % p.p_align + (x - p.start)) 0

/-- Mapped or copied, the segment has the same bytes. -/
structure Phdr.Alike (e : Engine) (p : Phdr) : Prop where
  congruent : p.p_offset % p.p_align = p.p_vaddr % p.p_align
  bss : p.p_filesz < p.p_memsz → ¬(p.Exec ∧ (e.target = x64 ∨ e.target = x64Pku))

/-- Mapped or copied, the segment is acceptable. -/
structure Phdr.BothWays (e : Engine) (bti : Bool) (elf : Buf) (base : Nat) (p : Phdr) : Prop where
  bss : p.p_filesz < p.p_memsz → p.Write
  offset : p.p_offset < 2 ^ 63
  inFile : p.p_filesz = 0 ∨ p.p_offset + p.p_filesz ≤ elf.size
  verdict : consults e (pflags p.p_flags bti) = true →
    e.lfivVerify (base + p.start)
        ((List.range (p.stop - p.start)).map fun i => p.mappedAt elf (p.start + i)) =
      e.lfivVerify (base + p.start)
        ((List.range (p.stop - p.start)).map fun i => p.byteAt e elf (p.start + i))

variable {e : Engine} {env : LoadEnv} {o : LFILinuxOptions} {r : Region} {box : LFIBox}
  {files : Int → Nat → UInt8} {file mem elf : Buf} {base x ps : Nat} {p q : Phdr} {bti : Bool}
  {prog : Buf} {interp : Option Buf} {proc proc' : LFILinuxProc} {l : LoadedElf} {st st₁ st₂ : State}
  {st' : State}

/-! What depends on the bytes only. -/

theorem ehdr_congr (h : file.data = mem.data) : file.ehdr = mem.ehdr := by
  rw [Buf.ehdr, Buf.ehdr, h]

theorem phdrs_congr (h : file.data = mem.data) : file.phdrs = mem.phdrs := by
  rw [Buf.phdrs, Buf.phdrs, ehdr_congr h, h]

theorem topAt_congr (h : file.data = mem.data) (x : Nat) : file.topAt x = mem.topAt x := by
  rw [Buf.topAt, Buf.topAt, Buf.loads, Buf.loads, phdrs_congr h]

theorem headerOk_congr (henv : ByBytes env) (h : file.data = mem.data) :
    HeaderOk env file ↔ HeaderOk env mem := by
  have hsize : file.size = mem.size := by rw [Buf.size, Buf.size, h]
  have hehdr := ehdr_congr h
  have hmalloc := (henv file mem h).2
  constructor
  · rintro ⟨h1, h2, h3, h4, h5, h6, h7, h8⟩
    rw [hsize, hehdr] at *
    exact ⟨h1, h2, h3, h4, hmalloc ▸ h5, h6, h7, h8⟩
  · rintro ⟨h1, h2, h3, h4, h5, h6, h7, h8⟩
    rw [← hsize, ← hehdr] at *
    exact ⟨h1, h2, h3, h4, hmalloc ▸ h5, h6, h7, h8⟩

theorem segsAt_congr (henv : ByBytes env) (h : file.data = mem.data) (base : Nat) :
    segsAt (env.bti file) base file.phdrs = segsAt (env.bti mem) base mem.phdrs := by
  rw [(henv file mem h).1, phdrs_congr h]

/-- The two files of an interpreter, if there is one. -/
abbrev SameInterp (files : Int → Nat → UInt8) : Option Buf → Option Buf → Prop :=
  Option.Rel (SameFile files)

theorem segs_congr {fileInterp memInterp : Option Buf} (henv : ByBytes env)
    (h : file.data = mem.data) (hi : SameInterp files fileInterp memInterp) (box : LFIBox) :
    progSegs env box file = progSegs env box mem ∧
      interpSegs env box file fileInterp = interpSegs env box mem memInterp ∧
      imageEnd env box file fileInterp = imageEnd env box mem memInterp := by
  have hprog : progSegs env box file = progSegs env box mem := segsAt_congr henv h _
  have hinterp : interpSegs env box file fileInterp = interpSegs env box mem memInterp := by
    cases hi with
    | none => rfl
    | some hi =>
        rw [interpSegs, interpSegs, hprog]
        exact segsAt_congr henv hi.data _
  refine ⟨hprog, hinterp, ?_⟩
  rw [imageEnd, imageEnd, hprog, hinterp]
  cases hi <;> rfl

/-! Pages. -/

/-- The page of the last segment at an address. -/
def pageOf (e : Engine) (segs : List SegArgs) (addr : Nat) (before : Option Page) : Option Page :=
  ((top SegArgs.covers segs addr).map fun s => some ⟨hostProt e.target s.prot, .priv⟩).getD before

theorem AllLoaded.page {segs : List SegArgs} (hall : AllLoaded e r elf segs st st') (addr : Nat) :
    (Elf.view e st'.box st'.host addr).page =
      pageOf e segs addr (Elf.view e st.box st.host addr).page := by
  rw [hall.view, pageOf]
  cases top SegArgs.covers segs addr with
  | none => rfl
  | some s =>
      simp only [Option.map_some, Option.getD_some, SegArgs.loaded]
      split <;> rfl

theorem Loaded.page (hl : Loaded e r env o .elfMap proc prog interp l st₁ st₂ proc')
    (hb : InSpace e r proc.box) (addr : Nat) :
    (view e proc'.box proc'.host addr).page =
      if 0 < o.brkmaxsize ∧ InSpan e.opts.pagesize (imageEnd env proc.box prog interp) o.brkmaxsize
          (addr / e.opts.pagesize) then some ⟨Prot.none, .priv⟩
      else pageOf e (interpSegs env proc.box prog interp) addr
        (pageOf e (progSegs env proc.box prog) addr (view e proc.box proc.host addr).page) := by
  split
  · rename_i hspan
    have hpage := (hl.brk.shows hspan.1 addr hspan.2).page
    exact hostProt_none e.target ▸ hpage
  · rename_i hspan
    rw [← hl.brkbase] at hspan
    have hall := hl.image.loaded hb.toWorks hb.isAlign hb.dvd_min
    have hprog := hall.page addr
    rw [hl.view_brk hspan]
    rcases hl.interpImage with ⟨rfl, rfl⟩ | ⟨i, li, rfl, himage, -⟩
    · exact hprog
    · have hall' := himage.loaded (hl.took_prog hb).works hb.isAlign (hl.dvd_progEnd hb)
      have hinterp := hall'.page addr
      rw [hprog] at hinterp
      exact hinterp

/-! Bytes. -/

theorem byte_mapped_seg (hv : p.Valid ps) (hl : p.Loads) (hr : p.InRange)
    (hroom : base + CODE_MAX < 2 ^ 64) (hsame : SameFile files file mem) (x : Nat) :
    ((p.seg bti base).mapped e files file (base + x)).byte = p.mappedAt mem x := by
  have hlt := hv.start_lt hl
  have hstop := hv.stop_lt
  have hstart : (p.seg bti base).start = base + p.start := add64_eq (by omega)
  have hdata := @Phdr.data_seg base p bti (by omega)
  have hoff : truncp (p.seg bti base).p_offset (p.seg bti base).p_align =
      p.p_offset - p.p_offset % p.p_align := truncp_eq hv.isAlign hr.offset
  have hbss : (p.seg bti base).HasBss ↔ p.p_filesz < p.p_memsz := Iff.rfl
  have hend : (p.seg bti base).data + (p.seg bti base).filesz ≤ base + x ↔
      p.p_vaddr + p.p_filesz ≤ x := by
    rw [hdata]
    simp only [Phdr.seg]
    omega
  rw [SegArgs.mapped, Phdr.mappedAt]
  simp only [hbss, hend, hoff, hstart, Nat.add_sub_add_left, hsame.files]

theorem byte_copied_seg (hv : p.Valid ps) (hl : p.Loads) (hroom : base + CODE_MAX < 2 ^ 64)
    (x : Nat) :
    ((p.seg bti base).copied e elf (base + x)).byte = p.byteAt e elf x :=
  hv.copiedByte_seg hl hroom bti x

/-- Where the file and the image are congruent, the segment has the same bytes. -/
theorem mappedAt_eq_byteAt (ha : p.Alike e) (hlo : p.p_vaddr ≤ x) (hhi : x < p.p_vaddr + p.p_memsz) :
    p.mappedAt elf x = p.byteAt e elf x := by
  have hmod := ha.congruent
  have hle := Nat.mod_le p.p_offset p.p_align
  have hle' := Nat.mod_le p.p_vaddr p.p_align
  rw [Phdr.mappedAt, Phdr.byteAt]
  by_cases hin : p.InFile x
  · have hno : ¬(p.p_filesz < p.p_memsz ∧ p.p_vaddr + p.p_filesz ≤ x) :=
      fun hand => absurd hin.2 (not_lt.mpr hand.2)
    have hoff : p.p_offset - p.p_offset % p.p_align + (x - p.start) =
        p.p_offset + (x - p.p_vaddr) := by
      rw [Phdr.start]
      omega
    rw [if_neg hno, if_pos hin, hoff]
  · have hend : p.p_vaddr + p.p_filesz ≤ x := by
      rw [Phdr.InFile] at hin
      omega
    have hbss : p.p_filesz < p.p_memsz := by omega
    rw [if_pos ⟨hbss, hend⟩, if_neg hin, if_neg fun hand => ha.bss hbss ⟨hand.1, hand.2.1⟩]

/-- What the verifier is shown, in the addresses of the file. -/
theorem shown_seg (hv : p.Valid ps) (hl : p.Loads) (hroom : base + CODE_MAX < 2 ^ 64)
    {byte : Nat → UInt8}
    (hbyte : ∀ x, ((p.seg bti base).loaded e files elf (base + x)).byte = byte x) :
    (p.seg bti base).shown e files elf =
      (List.range (p.stop - p.start)).map fun i => byte (p.start + i) := by
  have hlt := hv.start_lt hl
  have hstop := hv.stop_lt
  have hstart : (p.seg bti base).start = base + p.start := add64_eq (by omega)
  rw [SegArgs.shown, hv.size_seg hl, hstart]
  refine List.map_congr_left fun i _ => ?_
  rw [Nat.add_assoc]
  exact hbyte (p.start + i)

theorem complete_seg (hin : p.p_filesz = 0 ∨ p.p_offset + p.p_filesz ≤ elf.size) :
    (p.seg bti base).Complete elf := by
  have hlen : ((elf.data.drop p.p_offset).take p.p_filesz).length = p.p_filesz := by
    rw [List.length_take, List.length_drop]
    rw [Buf.size] at hin
    omega
  exact hlen

/-- A segment that can be loaded both ways is admissible both ways, or not at all. -/
theorem admissible_iff (hv : p.Valid ps) (hl : p.Loads) (hr : p.InRange)
    (hroom : base + CODE_MAX < 2 ^ 64) (hsame : SameFile files file mem)
    (hboth : p.BothWays e bti mem base) :
    (p.seg bti base).Admissible e box files file ↔ (p.seg bti base).Admissible e box files mem := by
  have hne : file.fd ≠ -1 := by
    have hfd := hsame.fd
    omega
  have hlt := hv.start_lt hl
  have hstop := hv.stop_lt
  have hstart : (p.seg bti base).start = base + p.start := add64_eq (by omega)
  have hfile := @shown_seg e files file base _ p bti hv hl hroom (p.mappedAt mem)
    fun x => by
      rw [SegArgs.loaded, if_pos hne]
      exact byte_mapped_seg hv hl hr hroom hsame x
  have hmem := @shown_seg e files mem base _ p bti hv hl hroom (p.byteAt e mem)
    fun x => by
      rw [SegArgs.loaded, if_neg (not_not.mpr hsame.memFd)]
      exact byte_copied_seg hv hl hroom x
  have hverdict : consults e (p.seg bti base).prot = true →
      (e.lfivVerify (p.seg bti base).start ((p.seg bti base).shown e files file) =
        e.lfivVerify (p.seg bti base).start ((p.seg bti base).shown e files mem)) := by
    rw [hfile, hmem, hstart]
    exact hboth.verdict
  have hmappable : (p.seg bti base).Mappable := by
    refine ⟨fun hbss => ?_, ?_⟩
    · rw [show (p.seg bti base).prot = pflags p.p_flags bti from rfl, (has_pflags _ _).2.1,
        decide_eq_true_eq]
      exact hboth.bss hbss
    · rw [show truncp (p.seg bti base).p_offset (p.seg bti base).p_align =
        p.p_offset - p.p_offset % p.p_align from truncp_eq hv.isAlign hr.offset]
      exact (Nat.sub_le _ _).trans_lt hboth.offset
  constructor
  · rintro ⟨hvalid, haccepted, hverified⟩
    refine ⟨hvalid, ⟨haccepted.refuses, fun h => absurd hsame.memFd h,
      fun _ => complete_seg hboth.inFile⟩, fun hconsults => ?_⟩
    rw [← hverdict hconsults]
    exact hverified hconsults
  · rintro ⟨hvalid, haccepted, hverified⟩
    refine ⟨hvalid, ⟨haccepted.refuses, fun _ => hmappable, fun h => absurd h hne⟩,
      fun hconsults => ?_⟩
    rw [hverdict hconsults]
    exact hverified hconsults

theorem imageOk_congr (hb : InSpace e r box) (henv : ByBytes env) (hsame : SameFile files file mem)
    (hroom : base + CODE_MAX < 2 ^ 64)
    (hboth : ∀ p ∈ mem.loads, p.BothWays e (env.bti mem) mem base) :
    ImageOk e env box files file base ↔ ImageOk e env box files mem base := by
  have hsegs := segsAt_congr henv hsame.data base
  have hphdrs := phdrs_congr hsame.data
  have hadm : (∀ p ∈ mem.phdrs, p.Loads → p.Valid e.opts.pagesize) →
      ((∀ s ∈ segsAt (env.bti mem) base mem.phdrs, s.Admissible e box files file) ↔
        ∀ s ∈ segsAt (env.bti mem) base mem.phdrs, s.Admissible e box files mem) := by
    intro hv
    by_cases hbase : base = 0
    · subst hbase
      constructor
      · intro hall
        rw [segsAt_zero_eq_nil hb hv fun s hs => (hall s hs).valid]
        simp
      · intro hall
        rw [segsAt_zero_eq_nil hb hv fun s hs => (hall s hs).valid]
        simp
    · rw [segsAt_eq hbase, ← Buf.loads]
      simp only [List.forall_mem_map]
      refine forall₂_congr fun p hp => ?_
      obtain ⟨hmem, hl⟩ := mem_loads.mp hp
      exact admissible_iff (hv p hmem hl) hl (inRange_phdrs mem p hmem) hroom hsame (hboth p hp)
  constructor
  · rintro ⟨hheader, hvalid, hall⟩
    rw [hphdrs] at hvalid
    rw [hsegs] at hall
    exact ⟨(headerOk_congr henv hsame.data).mp hheader, hvalid, (hadm hvalid).mp hall⟩
  · rintro ⟨hheader, hvalid, hall⟩
    refine ⟨(headerOk_congr henv hsame.data).mpr hheader, ?_, ?_⟩
    · rw [hphdrs]
      exact hvalid
    · rw [hsegs]
      exact (hadm hvalid).mpr hall

/-! The two paths. -/

variable {fileProg memProg : Buf} {fileInterp memInterp : Option Buf} {proc₁ proc₂ : LFILinuxProc}
  {a : Allocs} {l₁ l₂ : LoadedElf}

/-- Two processes have the same protections, and in the segments the same bytes. -/
structure SameImage (e : Engine) (env : LoadEnv) (box : LFIBox) (prog : Buf) (interp : Option Buf)
    (proc₁ proc₂ : LFILinuxProc) : Prop where
  pages : ∀ k, proc₁.host.mem.pages k = proc₂.host.mem.pages k
  program : ∀ x p, prog.topAt x = some p → p.Alike e → p.p_vaddr ≤ x → x < p.p_vaddr + p.p_memsz →
    proc₁.host.mem.read e.opts.pagesize (box.min + x) =
      proc₂.host.mem.read e.opts.pagesize (box.min + x)
  interpreter : ∀ i, interp = some i → ∀ x p, i.topAt x = some p → p.Alike e → p.p_vaddr ≤ x →
    x < p.p_vaddr + p.p_memsz →
      proc₁.host.mem.read e.opts.pagesize (highest (progSegs env box prog) + x) =
        proc₂.host.mem.read e.opts.pagesize (highest (progSegs env box prog) + x)

theorem procOk_congr (hb : InSpace e r box) (henv : ByBytes env)
    (hprog : SameFile files fileProg memProg) (hinterp : SameInterp files fileInterp memInterp)
    (hboth : ∀ p ∈ memProg.loads, p.BothWays e (env.bti memProg) memProg box.min)
    (hboth' : ∀ i, memInterp = some i → ∀ p ∈ i.loads,
      p.BothWays e (env.bti i) i (highest (progSegs env box memProg))) :
    ProcOk e env o box files fileProg fileInterp ↔ ProcOk e env o box files memProg memInterp := by
  obtain ⟨hsegs, -, hend⟩ := segs_congr henv hprog.data hinterp box
  have hfirst := imageOk_congr hb henv hprog hb.min_add_code_lt hboth
  have hsecond : ImageOk e env box files memProg box.min →
      ((∀ i, fileInterp = some i →
          ImageOk e env box files i (highest (progSegs env box memProg))) ↔
        ∀ i, memInterp = some i → ImageOk e env box files i (highest (progSegs env box memProg))) := by
    intro hok
    cases hinterp with
    | none => exact Iff.rfl
    | some hi =>
        have hroom : highest (progSegs env box memProg) + CODE_MAX < 2 ^ 64 := by
          have hmin := hb.min_add_lt
          have hcode : CODE_MAX < 2 ^ 64 := by decide
          rcases highest_bounds hb.min_ne_zero hb.min_add_code_lt hok.valid (env.bti memProg) with
            hnil | hbounds
          · rw [progSegs, hnil, highest_nil]
            omega
          · rw [progSegs]
            omega
        simp only [Option.some.injEq, forall_eq']
        exact imageOk_congr hb henv hi hroom (hboth' _ rfl)
  constructor
  · rintro ⟨hok, hiok, hbrk⟩
    rw [hsegs] at hiok
    rw [hend] at hbrk
    exact ⟨hfirst.mp hok, (hsecond (hfirst.mp hok)).mp hiok, hbrk⟩
  · rintro ⟨hok, hiok, hbrk⟩
    refine ⟨hfirst.mpr hok, ?_, ?_⟩
    · rw [hsegs]
      exact (hsecond hok).mpr hiok
    · rw [hend]
      exact hbrk

theorem Loaded.byte_prog_mapped (hl : Loaded e r env o .elfMap proc file interp l st₁ st₂ proc')
    (hb : InSpace e r proc.box) (hsame : SameFile proc.host.mem.files file mem)
    (hp : mem.topAt x = some p) :
    p.Valid e.opts.pagesize ∧
      proc'.host.mem.read e.opts.pagesize (proc.box.min + x) = p.mappedAt mem x := by
  have hp' := (topAt_congr hsame.data x).trans hp
  obtain ⟨hmem, hloads, -⟩ := topAt_spec hp
  have hvalid := hl.image.valid p (topAt_spec hp').1 hloads
  have hne : file.fd ≠ -1 := by
    have hfd := hsame.fd
    omega
  have hbyte := congrArg View.byte (hl.view_prog hb hp')
  rw [SegArgs.loaded, if_pos hne, byte_mapped_seg hvalid hloads (inRange_phdrs mem p hmem)
    hb.min_add_code_lt hsame] at hbyte
  exact ⟨hvalid, hbyte⟩

/-- What both paths load has the same byte exactly if the segment has, mapped and copied. -/
theorem Loaded.bytes_agree_iff {st₁' st₂' : State} (hb : InSpace e r proc.box)
    (hsame : SameFile proc.host.mem.files file mem) (hp : mem.topAt x = some p)
    (hl₁ : Loaded e r env o .elfMap proc file fileInterp l₁ st₁ st₂ proc₁)
    (hl₂ : Loaded e r env o .elfMap proc mem memInterp l₂ st₁' st₂' proc₂) :
    proc₁.host.mem.read e.opts.pagesize (proc.box.min + x) =
        proc₂.host.mem.read e.opts.pagesize (proc.box.min + x) ↔
      p.mappedAt mem x = p.byteAt e mem x := by
  rw [(hl₁.byte_prog_mapped hb hsame hp).2, hl₂.byte_prog hb hsame.memFd hp]

theorem Loaded.sameImage {st₁' st₂' : State} (hb : InSpace e r proc.box) (henv : ByBytes env)
    (hprog : SameFile proc.host.mem.files fileProg memProg)
    (hinterp : SameInterp proc.host.mem.files fileInterp memInterp)
    (hl₁ : Loaded e r env o .elfMap proc fileProg fileInterp l₁ st₁ st₂ proc₁)
    (hl₂ : Loaded e r env o .elfMap proc memProg memInterp l₂ st₁' st₂' proc₂) :
    SameImage e env proc.box memProg memInterp proc₁ proc₂ := by
  obtain ⟨hsegs, hisegs, hend⟩ := segs_congr henv hprog.data hinterp proc.box
  refine ⟨fun k => ?_, fun x p hp ha hlo hhi => ?_, fun i hi x p hp ha hlo hhi => ?_⟩
  · have hdiv := Nat.mul_div_cancel k hb.isAlign.pos
    have hpage := hl₁.page hb (k * e.opts.pagesize)
    rw [hsegs, hisegs, hend, ← hl₂.page hb (k * e.opts.pagesize)] at hpage
    simp only [view, hdiv] at hpage
    exact hpage
  · rw [hl₁.bytes_agree_iff hb hprog hp hl₂]
    exact mappedAt_eq_byteAt ha hlo hhi
  · subst hi
    cases hinterp with
    | @some file _ hi =>
        obtain ⟨hmem, hloads, -⟩ := topAt_spec hp
        obtain ⟨-, hroom, hview₂⟩ := hl₂.view_interp hb hp
        obtain ⟨-, -, hview₁⟩ := hl₁.view_interp hb ((topAt_congr hi.data x).trans hp)
        have hvalid : p.Valid e.opts.pagesize := by
          rcases hl₂.interpImage with ⟨hnone, -⟩ | ⟨i', li, hsome, himage, -⟩
          · cases hnone
          · obtain rfl := Option.some.inj hsome
            exact himage.valid p hmem hloads
        have hne : file.fd ≠ -1 := by
          have hfd := hi.fd
          omega
        rw [hsegs] at hview₁
        have hbyte₁ := congrArg View.byte hview₁
        have hbyte₂ := congrArg View.byte hview₂
        rw [SegArgs.loaded, if_pos hne,
          byte_mapped_seg hvalid hloads (inRange_phdrs i p hmem) hroom hi,
          mappedAt_eq_byteAt ha hlo hhi] at hbyte₁
        rw [SegArgs.loaded, if_neg (not_not.mpr hi.memFd), byte_copied_seg hvalid hloads hroom]
          at hbyte₂
        exact hbyte₁.trans hbyte₂.symm

def oneSegment (flags offset vaddr filesz memsz : Nat) : Bytes :=
  ehdrBytes 0x40 1 0 0 ++ phdrBytes flags offset vaddr filesz memsz

theorem length_oneSegment (flags offset vaddr filesz memsz : Nat) :
    (oneSegment flags offset vaddr filesz memsz).length = 120 := by
  simp [oneSegment, ehdrBytes, phdrBytes, zeros, ELFMAG]

/-- A buffer with one segment. -/
def segBuf (flags offset vaddr filesz memsz : Nat) : Buf where
  fd := -1
  data := oneSegment flags offset vaddr filesz memsz
  size_lt := by
    rw [length_oneSegment]
    decide

/-- A host with a file of the same bytes. -/
def diskProc (elf : Buf) : LFILinuxProc :=
  { newProc with
    host :=
      ⟨{ pages := fun _ => none, priv := fun _ => 0, files := fun _ i => elf.data.getD i 0 },
        [], []⟩ }

def onDisk (elf : Buf) : Buf := { elf with fd := 3 }

def loadFile (e : Engine) (elf : Buf) : Bool × LFILinuxProc :=
  procLoad e richEnv ⟨true, 0⟩ (diskProc elf) (onDisk elf) none .elfMap ⟨none, none⟩

def loadBuf (e : Engine) (elf : Buf) : Bool × LFILinuxProc :=
  procLoad e richEnv ⟨true, 0⟩ (diskProc elf) elf none .elfMap ⟨none, none⟩

theorem sameFile_onDisk (hfd : elf.fd = -1) :
    SameFile (diskProc elf).host.mem.files (onDisk elf) elf :=
  ⟨rfl, Int.natCast_nonneg 3, hfd, fun _ => rfl⟩

theorem byBytes_richEnv : ByBytes richEnv := fun _ _ _ => ⟨rfl, rfl⟩

/-- Both paths load the file, and a byte of a segment differs. -/
def DiffersAt (e : Engine) (elf : Buf) (x : Nat) : Prop :=
  (loadFile e elf).1 = true ∧ (loadBuf e elf).1 = true ∧
    (∃ p ∈ elf.loads, p.p_vaddr ≤ x ∧ x < p.p_vaddr + p.p_memsz) ∧
    (loadFile e elf).2.host.mem.read e.opts.pagesize (newProc.box.min + x) ≠
      (loadBuf e elf).2.host.mem.read e.opts.pagesize (newProc.box.min + x)

theorem differsAt_of_byte (hb : InSpace e r newProc.box) (hfd : elf.fd = -1)
    (hfile : (loadFile e elf).1 = true) (hbuf : (loadBuf e elf).1 = true)
    (hin : ∃ p ∈ elf.loads, p.p_vaddr ≤ x ∧ x < p.p_vaddr + p.p_memsz)
    (hq : elf.topAt x = some q) (hne : q.mappedAt elf x ≠ q.byteAt e elf x) :
    DiffersAt e elf x := by
  have hbox : InSpace e r (diskProc elf).box := hb
  obtain ⟨l₁, st₁, st₂, hl₁⟩ := procLoad_loaded hbox (eq_of_fst hfile)
  obtain ⟨l₂, st₁', st₂', hl₂⟩ := procLoad_loaded hbox (eq_of_fst hbuf)
  refine ⟨hfile, hbuf, hin, fun heq => hne ?_⟩
  exact (hl₁.bytes_agree_iff hbox (sameFile_onDisk hfd) hq hl₂).mp heq

/-- A segment that starts within a page of the file, but not within a page of the image. -/
def shiftedFile : Buf := segBuf PF_R 64 0 56 56

theorem differsAt_shiftedFile : DiffersAt nopEngine shiftedFile 0 := by
  obtain ⟨r, hb⟩ := inSpace_newProc
  have hloads : shiftedFile.loads = [⟨PT_LOAD, PF_R, 64, 0, 56, 56, 4096⟩] := by decide +kernel
  refine differsAt_of_byte hb rfl (by decide +kernel) (by decide +kernel) ?_
    (q := ⟨PT_LOAD, PF_R, 64, 0, 56, 56, 4096⟩) ?_ (by decide +kernel)
  · simp [hloads]
  · rw [Buf.topAt, hloads]
    decide

/-- A segment of code that can be written, with a BSS. -/
def textBss : Buf := segBuf (PF_R + PF_W + PF_X) 0 0 120 200

theorem differsAt_textBss : DiffersAt laxEngine textBss 120 := by
  obtain ⟨r, hb⟩ := inSpace_laxEngine
  have hloads : textBss.loads = [⟨PT_LOAD, PF_R + PF_W + PF_X, 0, 0, 120, 200, 4096⟩] := by
    decide +kernel
  refine differsAt_of_byte hb rfl (by decide +kernel) (by decide +kernel) ?_
    (q := ⟨PT_LOAD, PF_R + PF_W + PF_X, 0, 0, 120, 200, 4096⟩) ?_ (by decide +kernel)
  · simp [hloads]
  · rw [Buf.topAt, hloads]
    decide

/-- A segment, and another one on the same page. -/
def sharedPage : Buf where
  fd := -1
  data := ehdrBytes 0x40 2 0 0 ++ phdrBytes PF_R 0 0 120 120 ++
    phdrBytes (PF_R + PF_W) 200 200 0 8
  size_lt := by decide +kernel

theorem differsAt_sharedPage : DiffersAt nopEngine sharedPage 0 := by
  obtain ⟨r, hb⟩ := inSpace_newProc
  have hloads : sharedPage.loads = [⟨PT_LOAD, PF_R, 0, 0, 120, 120, 4096⟩,
      ⟨PT_LOAD, PF_R + PF_W, 200, 200, 0, 8, 4096⟩] := by
    decide +kernel
  refine differsAt_of_byte hb rfl (by decide +kernel) (by decide +kernel) ?_
    (q := ⟨PT_LOAD, PF_R + PF_W, 200, 200, 0, 8, 4096⟩) ?_ (by decide +kernel)
  · simp [hloads]
  · rw [Buf.topAt, hloads]
    decide

/-- A verifier that looks for a trap in front of the code. -/
def trapEngine : Engine :=
  { nopEngine with lfivVerify := fun _ bytes => bytes.head? = some SAFE_BYTE }

/-- Code behind the headers, on the same page. -/
def tailText : Buf := segBuf (PF_R + PF_X) 64 64 56 56

def tailSegment : Phdr := ⟨PT_LOAD, PF_R + PF_X, 64, 64, 56, 56, 4096⟩

theorem phdrs_tailText : tailText.phdrs = [tailSegment] := by decide +kernel

theorem inSpace_trapEngine : ∃ r, InSpace trapEngine r newProc.box :=
  @inSpace_new _ _ 0 _ ⟨by decide, by decide, by decide, by decide, by decide, by decide⟩
    (by decide) (by decide) rfl

theorem valid_tailSegment : tailSegment.Valid 4096 :=
  ⟨⟨12, by decide, rfl⟩, by decide, by decide, by decide +kernel⟩

theorem loadBuf_tailText : (loadBuf trapEngine tailText).1 = true := by
  obtain ⟨r, hb⟩ := inSpace_trapEngine
  have hbox : InSpace trapEngine r (diskProc tailText).box := hb
  have hwilling : Willing (diskProc tailText).host := rfl
  have hvalid : ∀ p ∈ tailText.phdrs, p.Loads → p.Valid trapEngine.opts.pagesize := by
    intro p hp _
    rw [phdrs_tailText, List.mem_singleton] at hp
    exact hp ▸ valid_tailSegment
  rw [loadBuf, procLoad_iff hbox hwilling (by decide) (by simp)]
  refine ⟨⟨?_, hvalid, ?_⟩, by simp, fun h => absurd h (by decide)⟩
  · exact ⟨by decide, by decide +kernel, by decide +kernel, by decide +kernel, rfl,
      by decide +kernel, by decide +kernel, by decide +kernel⟩
  · intro s hs
    rw [phdrs_tailText, segsAt_eq hbox.min_ne_zero,
      show [tailSegment].filter (·.Loads) = [tailSegment] from rfl, List.map_singleton,
      List.mem_singleton] at hs
    subst hs
    have hbyte : ∀ x, ((tailSegment.seg (richEnv.bti tailText) (diskProc tailText).box.min).loaded
        trapEngine (diskProc tailText).host.mem.files tailText
          ((diskProc tailText).box.min + x)).byte =
          tailSegment.byteAt trapEngine tailText x := by
      intro x
      rw [SegArgs.loaded, if_neg (not_not.mpr (show tailText.fd = -1 from rfl))]
      exact byte_copied_seg valid_tailSegment (by decide) hbox.min_add_code_lt x
    have hcomplete : (tailSegment.seg (richEnv.bti tailText) (diskProc tailText).box.min).Complete
        tailText := complete_seg (.inr (by decide +kernel))
    refine ⟨by decide +kernel, ⟨by decide +kernel, fun h => absurd rfl h, fun _ => hcomplete⟩, ?_⟩
    intro _
    rw [shown_seg valid_tailSegment (by decide) hbox.min_add_code_lt hbyte]
    decide +kernel

end LfiRuntime.Elf
