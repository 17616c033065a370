import LfiRuntime.Linux.ElfLayout

/-!
What a loaded image shows at each of its addresses.
-/

namespace LfiRuntime.Elf

open LfiRuntime.Align
open LfiRuntime.Box
open LfiRuntime.Brk
open LfiRuntime.ByteString
open LfiRuntime.Config
open LfiRuntime.HostCalls
open LfiRuntime.Layers
open LfiRuntime.Mmap
open LfiRuntime.PagedMemory

/-- The headers of the segments that are loaded. -/
def Buf.loads (elf : Buf) : List Phdr := elf.phdrs.filter (·.Loads)

namespace Phdr

/-- The range of the segment, in the addresses of the file. -/
def covers (p : Phdr) (x : Nat) : Bool := p.start ≤ x && x < p.stop

def InFile (p : Phdr) (x : Nat) : Prop := p.p_vaddr ≤ x ∧ x < p.p_vaddr + p.p_filesz

def Read (p : Phdr) : Prop := p.p_flags &&& PF_R ≠ 0

def Write (p : Phdr) : Prop := p.p_flags &&& PF_W ≠ 0

def Exec (p : Phdr) : Prop := p.p_flags &&& PF_X ≠ 0

instance (p : Phdr) (x : Nat) : Decidable (p.InFile x) := inferInstanceAs (Decidable (_ ∧ _))

instance (p : Phdr) : Decidable p.Read := inferInstanceAs (Decidable (_ ≠ _))

instance (p : Phdr) : Decidable p.Write := inferInstanceAs (Decidable (_ ≠ _))

instance (p : Phdr) : Decidable p.Exec := inferInstanceAs (Decidable (_ ≠ _))

end Phdr

/-- The byte that the segment has at an address of the file. -/
def Phdr.byteAt (e : Engine) (elf : Buf) (p : Phdr) (x : Nat) : UInt8 :=
  if p.InFile x then elf.data.getD (p.p_offset + (x - p.p_vaddr)) 0
  else if p.Exec ∧ (e.target = x64 ∨ e.target = x64Pku) ∧
      (x < p.start + e.opts.pagesize ∨ p.stop ≤ x + e.opts.pagesize) then SAFE_BYTE
  else 0

/-- The segment that is loaded last at an address of the file. -/
def Buf.topAt (elf : Buf) (x : Nat) : Option Phdr := top Phdr.covers elf.loads x

theorem has_pflags (flags : Nat) (bti : Bool) :
    has (pflags flags bti) LFI_PROT_READ = decide (flags &&& PF_R ≠ 0) ∧
      has (pflags flags bti) LFI_PROT_WRITE = decide (flags &&& PF_W ≠ 0) ∧
      has (pflags flags bti) LFI_PROT_EXEC = decide (flags &&& PF_X ≠ 0) ∧
      has (pflags flags bti) LFI_PROT_BTI = (bti && decide (flags &&& PF_X ≠ 0)) := by
  simp only [pflags]
  generalize flags &&& PF_R = x
  generalize flags &&& PF_W = y
  generalize flags &&& PF_X = z
  by_cases hx : x = 0 <;> by_cases hy : y = 0 <;> by_cases hz : z = 0 <;> cases bti <;>
    simp only [hx, hy, hz, ne_eq, not_true_eq_false, not_false_eq_true, if_true, if_false,
      Bool.false_eq_true, and_true, and_false] <;> decide

variable {e : Engine} {env : LoadEnv} {mapOp : MapOp} {o : LFILinuxOptions} {r : Region}
  {prog elf : Buf} {interp : Option Buf} {base ps x : Nat} {p q : Phdr} {bti : Bool}
  {proc proc' : LFILinuxProc} {a : Allocs} {l : LoadedElf} {st₁ st₂ : State}

theorem mem_loads : p ∈ elf.loads ↔ p ∈ elf.phdrs ∧ p.Loads := by
  rw [Buf.loads, List.mem_filter, decide_eq_true_eq]

/-! A segment that has been placed. -/

namespace Phdr

theorem covers_iff : p.covers x = true ↔ p.start ≤ x ∧ x < p.stop := by
  rw [covers, Bool.and_eq_true, decide_eq_true_eq, decide_eq_true_eq]

theorem data_seg (hl : p.start + base < 2 ^ 64) : (p.seg bti base).data = base + p.p_vaddr := by
  have hle := p.start_le
  simp only [seg, SegArgs.data]
  rw [add64_eq (by omega)]
  omega

theorem inFile_seg (hl : p.start + base < 2 ^ 64) :
    (p.seg bti base).InFile (base + x) ↔ p.InFile x := by
  rw [SegArgs.InFile, data_seg hl, InFile]
  simp only [seg]
  omega

theorem Valid.covers_seg (hv : p.Valid ps) (hl : p.Loads) (hroom : base + CODE_MAX < 2 ^ 64)
    (bti : Bool) (x : Nat) : (p.seg bti base).covers (base + x) = p.covers x := by
  have hlt := hv.start_lt hl
  have hstop := hv.stop_lt
  have hstart : (p.seg bti base).start = base + p.start := add64_eq (by omega)
  rw [Bool.eq_iff_iff, SegArgs.covers_iff, covers_iff, hv.size_seg hl, hstart]
  omega

theorem Valid.copiedByte_seg (hv : p.Valid ps) (hl : p.Loads) (hroom : base + CODE_MAX < 2 ^ 64)
    (bti : Bool) (x : Nat) :
    (p.seg bti base).copiedByte e elf (base + x) = p.byteAt e elf x := by
  have hlt := hv.start_lt hl
  have hstop := hv.stop_lt
  have hsmall : p.start + base < 2 ^ 64 := by omega
  have hstart : (p.seg bti base).start = base + p.start := add64_eq (by omega)
  have hexec : has (p.seg bti base).prot LFI_PROT_EXEC = true ↔ p.Exec := by
    rw [show (p.seg bti base).prot = pflags p.p_flags bti from rfl, (has_pflags _ _).2.2.1,
      decide_eq_true_eq, Exec]
  have hoff : (p.seg bti base).p_offset + (base + x - (p.seg bti base).data) =
      p.p_offset + (x - p.p_vaddr) := by
    rw [data_seg hsmall, Nat.add_sub_add_left]
    rfl
  have hends : (base + x < (p.seg bti base).start + e.opts.pagesize ∨
      (p.seg bti base).start + (p.seg bti base).size ≤ base + x + e.opts.pagesize) ↔
        (x < p.start + e.opts.pagesize ∨ p.stop ≤ x + e.opts.pagesize) := by
    rw [hv.size_seg hl, hstart]
    omega
  rw [SegArgs.copiedByte, byteAt]
  simp only [inFile_seg hsmall, hexec, hoff, hends]

end Phdr

theorem top_segsAt (hbase : base ≠ 0) (hroom : base + CODE_MAX < 2 ^ 64)
    (hv : ∀ p ∈ elf.phdrs, p.Loads → p.Valid ps) (bti : Bool) (x : Nat) :
    top SegArgs.covers (segsAt bti base elf.phdrs) (base + x) =
      (elf.topAt x).map (·.seg bti base) := by
  rw [segsAt_eq hbase]
  refine top_map fun p hp => ?_
  obtain ⟨hp, hl⟩ := mem_loads.mp hp
  exact (hv p hp hl).covers_seg hl hroom bti x

theorem topAt_spec (hq : elf.topAt x = some q) :
    q ∈ elf.phdrs ∧ q.Loads ∧ q.start ≤ x ∧ x < q.stop := by
  obtain ⟨hmem, hl⟩ := mem_loads.mp (mem_of_top hq)
  exact ⟨hmem, hl, Phdr.covers_iff.mp (covers_of_top hq)⟩

theorem exists_topAt (hp : p ∈ elf.loads) (hx : p.covers x = true) : ∃ q, elf.topAt x = some q :=
  exists_top hp hx

/-- Where an image is placed, an address of the file is below the image's end. -/
theorem lt_highest_of_topAt (hbase : base ≠ 0) (hroom : base + CODE_MAX < 2 ^ 64)
    (hv : ∀ p ∈ elf.phdrs, p.Loads → p.Valid ps) (hq : elf.topAt x = some q) (bti : Bool) :
    base + x < highest (segsAt bti base elf.phdrs) := by
  obtain ⟨hmem, hl, -, hlt⟩ := topAt_spec hq
  have hstop := (hv q hmem hl).stop_lt
  have hin : q.seg bti base ∈ segsAt bti base elf.phdrs := by
    rw [segsAt_eq hbase]
    exact List.mem_map_of_mem (mem_loads.mpr ⟨hmem, hl⟩)
  have hle := le_highest hin
  have heq : (q.seg bti base).stop = base + q.stop := add64_eq (by omega)
  omega

theorem AllLoaded.view_topAt {st st' : State} (hbase : base ≠ 0) (hroom : base + CODE_MAX < 2 ^ 64)
    (hv : ∀ p ∈ elf.phdrs, p.Loads → p.Valid ps)
    (hall : AllLoaded e r elf (segsAt bti base elf.phdrs) st st') (hq : elf.topAt x = some q) :
    Elf.view e st'.box st'.host (base + x) =
      (q.seg bti base).loaded e st.host.mem.files elf (base + x) := by
  rw [hall.view, top_segsAt hbase hroom hv, hq]
  rfl

theorem segsAt_ne_nil {phdrs : List Phdr} (hp : p ∈ phdrs) (hl : p.Loads) :
    segsAt bti base phdrs ≠ [] := by
  induction phdrs generalizing base with
  | nil => cases hp
  | cons q phdrs ih =>
      rw [segsAt]
      split
      · exact List.cons_ne_nil _ _
      · rename_i hq
        rcases List.mem_cons.mp hp with rfl | hp
        · exact absurd hl hq
        · exact ih hp

/-! The images of a process. -/

namespace Loaded

/-- The program's segments lie below the break. -/
theorem le_imageEnd (hl : Loaded e r env o mapOp proc prog interp l st₁ st₂ proc')
    (hb : InSpace e r proc.box) (hpos : 0 < o.brkmaxsize) :
    highest (progSegs env proc.box prog) ≤ imageEnd env proc.box prog interp := by
  have hmin := hb.lt_min
  obtain ⟨mm, hmm⟩ := (hl.took hb).box_eq
  have hvalid := (hl.brk.valid hpos).1
  rw [hmm] at hvalid
  simp only [lfiBoxBufvalid, Bool.and_eq_true, decide_eq_true_eq] at hvalid
  cases interp with
  | none => exact le_rfl
  | some i =>
      have hend : imageEnd env proc.box prog (some i) =
          highest (interpSegs env proc.box prog (some i)) := rfl
      rw [hend] at hvalid ⊢
      by_cases hne : interpSegs env proc.box prog (some i) = []
      · rw [hne, highest_nil] at hvalid
        omega
      · obtain ⟨s, hs, hstop⟩ := exists_highest hne
        obtain ⟨hlo, hlt, -⟩ := (lieIn_interp hl hb rfl).1 s hs
        omega

/-- The break leaves what lies below it. -/
theorem view_below (hl : Loaded e r env o mapOp proc prog interp l st₁ st₂ proc') {addr : Nat}
    (haddr : 0 < o.brkmaxsize → addr < imageEnd env proc.box prog interp) :
    view e proc'.box proc'.host addr = view e st₂.box st₂.host addr := by
  refine hl.view_brk fun hand => ?_
  have hdvd := (hl.brk.valid hand.1).2
  have hin := hand.2.1
  rw [hl.brkbase] at hin
  have hle := (Nat.mul_le_mul_right e.opts.pagesize hin).trans (Nat.div_mul_le_self _ _)
  rw [Nat.div_mul_cancel hdvd] at hle
  have hlt := haddr hand.1
  omega

theorem view_prog (hl : Loaded e r env o .elfMap proc prog interp l st₁ st₂ proc')
    (hb : InSpace e r proc.box) (hq : prog.topAt x = some q) :
    view e proc'.box proc'.host (proc.box.min + x) =
      (q.seg (env.bti prog) proc.box.min).loaded e proc.host.mem.files prog (proc.box.min + x) := by
  have hne := hb.min_ne_zero
  have hroom := hb.min_add_code_lt
  have hlt := lt_highest_of_topAt hne hroom hl.image.valid hq (env.bti prog)
  have hall := hl.image.loaded hb.toWorks hb.isAlign hb.dvd_min
  rw [hl.view_below fun hpos => hlt.trans_le (hl.le_imageEnd hb hpos),
    (hl.took_interp hb).kept _ fun s hs => ?_]
  · exact hall.view_topAt hne hroom hl.image.valid hq
  · cases interp with
    | none => cases hs
    | some i =>
        have hlo := ((lieIn_interp hl hb rfl).1 s hs).1
        rw [progSegs] at hlo
        rw [← Bool.not_eq_true, SegArgs.covers_iff]
        omega

/-- The interpreter's segments are where the program ends. -/
theorem view_interp {i : Buf} (hl : Loaded e r env o .elfMap proc prog (some i) l st₁ st₂ proc')
    (hb : InSpace e r proc.box) (hq : i.topAt x = some q) :
    highest (progSegs env proc.box prog) ≠ 0 ∧
      highest (progSegs env proc.box prog) + CODE_MAX < 2 ^ 64 ∧
      view e proc'.box proc'.host (highest (progSegs env proc.box prog) + x) =
        (q.seg (env.bti i) (highest (progSegs env proc.box prog))).loaded e proc.host.mem.files i
          (highest (progSegs env proc.box prog) + x) := by
  have hroom := hb.min_add_lt
  have htook := hl.took_prog hb
  rcases hl.interpImage with ⟨hnone, -⟩ | ⟨i', li, hsome, himage, -⟩
  · cases hnone
  obtain rfl := Option.some.inj hsome
  have hall := himage.loaded htook.works hb.isAlign (hl.dvd_progEnd hb)
  have hvalid := (himage.took htook.works hb.isAlign (hl.dvd_progEnd hb)).valid
  have hfiles := (hl.image.loaded hb.toWorks hb.isAlign hb.dvd_min).files
  dsimp only at hfiles
  obtain ⟨hmem, hloads, -⟩ := topAt_spec hq
  have hne : highest (progSegs env proc.box prog) ≠ 0 := by
    intro hzero
    rw [hzero] at hvalid
    exact segsAt_ne_nil hmem hloads
      (@segsAt_zero_eq_nil _ _ _ _ (env.bti i) (hb.after htook) himage.valid hvalid)
  have hend : highest (progSegs env proc.box prog) + CODE_MAX < 2 ^ 64 := by
    rcases highest_bounds hb.min_ne_zero hb.min_add_code_lt hl.image.valid (env.bti prog) with
      hnil | hbounds
    · rw [progSegs, hnil] at hne
      exact absurd rfl hne
    · rw [progSegs]
      omega
  have hlt := lt_highest_of_topAt hne hend himage.valid hq (env.bti i)
  refine ⟨hne, hend, ?_⟩
  rw [hl.view_below fun _ => hlt, hall.view_topAt hne hend himage.valid hq, hfiles]

/-- The byte at an address of a file in memory. -/
theorem byte_prog (hl : Loaded e r env o .elfMap proc prog interp l st₁ st₂ proc')
    (hb : InSpace e r proc.box) (hfd : prog.fd = -1) (hq : prog.topAt x = some q) :
    proc'.host.mem.read e.opts.pagesize (proc.box.min + x) = q.byteAt e prog x := by
  obtain ⟨hmem, hloads, -⟩ := topAt_spec hq
  have hbyte := congrArg View.byte (hl.view_prog hb hq)
  rw [SegArgs.loaded, if_neg (not_not.mpr hfd)] at hbyte
  refine hbyte.trans ?_
  exact (hl.image.valid q hmem hloads).copiedByte_seg hloads hb.min_add_code_lt _ x

end Loaded

/-! A program without an interpreter, whose segments do not overlap. -/

def Buf.Disjoint (elf : Buf) : Prop :=
  elf.loads.Pairwise fun p q => p.stop ≤ q.start ∨ q.stop ≤ p.start

theorem topAt_of_disjoint (hd : elf.Disjoint) (hp : p ∈ elf.loads) (hx : p.covers x = true) :
    elf.topAt x = some p := by
  refine top_of_pairwise (hd.imp fun {p q} hapart y hy => ?_) hp hx
  rw [Phdr.covers_iff] at hy
  rw [← Bool.not_eq_true, Phdr.covers_iff]
  omega

/-- The process has the image of the file. -/
structure Faithful (e : Engine) (env : LoadEnv) (o : LFILinuxOptions) (prog : Buf)
    (proc proc' : LFILinuxProc) : Prop where
  content : ∀ p ∈ prog.loads, ∀ k < p.p_filesz, prog.data[p.p_offset + k]? =
    some (proc'.host.mem.read e.opts.pagesize (proc.box.min + p.p_vaddr + k))
  bss : ∀ p ∈ prog.loads, ¬p.Exec → ∀ k, p.p_filesz ≤ k → k < p.p_memsz →
    proc'.host.mem.read e.opts.pagesize (proc.box.min + p.p_vaddr + k) = 0
  pages : ∀ p ∈ prog.loads, ∀ x, p.covers x = true →
    proc'.host.mem.pages ((proc.box.min + x) / e.opts.pagesize) =
        some ⟨⟨decide p.Read, decide p.Write, decide p.Exec,
          e.target.bti && (env.bti prog && decide p.Exec)⟩, .priv⟩ ∧
      lfiBoxMquery proc'.box (proc.box.min + x) =
        some ⟨pflags p.p_flags (env.bti prog), MAP_FLAGS, -1, 0⟩
  writeExec : ∀ p ∈ prog.loads, p.Write → p.Exec → e.opts.allowWx = true ∧ e.opts.noVerify = true
  inside : ∀ p ∈ prog.loads, proc.box.min + p.stop ≤ proc.box.max
  brk : 0 < o.brkmaxsize → ∀ a,
    InSpan e.opts.pagesize proc'.brkbase o.brkmaxsize (a / e.opts.pagesize) →
      proc'.host.mem.pages (a / e.opts.pagesize) = some ⟨Prot.none, .priv⟩
  elsewhere : ∀ a, (∀ p ∈ prog.loads, ¬(proc.box.min + p.start ≤ a ∧ a < proc.box.min + p.stop)) →
    ¬InSpan e.opts.pagesize proc'.brkbase o.brkmaxsize (a / e.opts.pagesize) →
      view e proc'.box proc'.host a = view e proc.box proc.host a

theorem hostProt_none (t : Target) : hostProt t LFI_PROT_NONE = Prot.none := by
  have hbti : has LFI_PROT_NONE LFI_PROT_BTI = false := by decide
  rw [hostProt, hbti, Bool.and_false]
  rfl

theorem hostProt_pflags (t : Target) (flags : Nat) (bti : Bool) :
    hostProt t (pflags flags bti) =
      ⟨decide (flags &&& PF_R ≠ 0), decide (flags &&& PF_W ≠ 0), decide (flags &&& PF_X ≠ 0),
        t.bti && (bti && decide (flags &&& PF_X ≠ 0))⟩ := by
  obtain ⟨hread, hwrite, hexec, hbti⟩ := has_pflags flags bti
  rw [hostProt, hread, hwrite, hexec, hbti]

theorem refuses_pflags (e : Engine) (p : Phdr) (bti : Bool) :
    refuses e (pflags p.p_flags bti) = false ↔
      (p.Write → p.Exec → e.opts.allowWx = true ∧ e.opts.noVerify = true) := by
  obtain ⟨-, hwrite, hexec, -⟩ := has_pflags p.p_flags bti
  rw [refuses, hexec, hwrite, Phdr.Write, Phdr.Exec]
  by_cases hw : p.p_flags &&& PF_W = 0 <;> by_cases hx : p.p_flags &&& PF_X = 0 <;> simp [hw, hx]

/-- A file of which every segment is complete has the bytes that are read from it. -/
theorem getElem?_of_complete {s : SegArgs} (hs : s.Complete elf) {k : Nat} (hk : k < s.filesz) :
    elf.data[s.p_offset + k]? = some (elf.data.getD (s.p_offset + k) 0) := by
  have hlt : s.p_offset + k < elf.data.length := by
    rw [SegArgs.Complete, List.length_take, List.length_drop] at hs
    omega
  rw [List.getD_eq_getElem?_getD, List.getElem?_eq_getElem hlt, Option.getD_some]

namespace Loaded

theorem faithful (hl : Loaded e r env o .elfMap proc prog none l st₁ st₂ proc')
    (hb : InSpace e r proc.box) (hfd : prog.fd = -1) (hd : prog.Disjoint) :
    Faithful e env o prog proc proc' := by
  have hne := hb.min_ne_zero
  have hroom := hb.min_add_code_lt
  have hlayout := hl.layout hb
  have hsegs : progSegs env proc.box prog = prog.loads.map (·.seg (env.bti prog) proc.box.min) :=
    segsAt_eq hne
  have hall := hl.image.loaded hb.toWorks hb.isAlign hb.dvd_min
  have hvalid : ∀ p ∈ prog.loads, p.Valid e.opts.pagesize ∧ p.Loads := by
    intro p hp
    obtain ⟨hmem, hloads⟩ := mem_loads.mp hp
    exact ⟨hl.image.valid p hmem hloads, hloads⟩
  have hacc : ∀ p ∈ prog.loads, (p.seg (env.bti prog) proc.box.min).Accepted e prog := by
    intro p hp
    refine hall.accepted _ ?_
    rw [segsAt_eq hne]
    exact List.mem_map_of_mem hp
  have hbyte : ∀ p ∈ prog.loads, ∀ k < p.p_memsz,
      proc'.host.mem.read e.opts.pagesize (proc.box.min + p.p_vaddr + k) =
        p.byteAt e prog (p.p_vaddr + k) := by
    intro p hp k hk
    have hstart := p.start_le
    have hend := (hvalid p hp).1.end_le
    rw [Nat.add_assoc]
    exact hl.byte_prog hb hfd (topAt_of_disjoint hd hp (Phdr.covers_iff.mpr ⟨by omega, by omega⟩))
  have hplace : ∀ p ∈ prog.loads,
      (p.seg (env.bti prog) proc.box.min).start = proc.box.min + p.start ∧
        (p.seg (env.bti prog) proc.box.min).stop = proc.box.min + p.stop := by
    intro p hp
    have hlt := (hvalid p hp).1.start_lt (hvalid p hp).2
    have hstop := (hvalid p hp).1.stop_lt
    exact ⟨add64_eq (by omega), add64_eq (by omega)⟩
  refine ⟨fun p hp k hk => ?_, fun p hp hexec k hlo hhi => ?_, fun p hp x hx => ?_, fun p hp => ?_,
    fun p hp => ?_, fun hpos a ha => ?_, fun a ha hspan => ?_⟩
  · have hle := (hvalid p hp).1.filesz_le
    have hbyte := hbyte p hp k (by omega)
    have hcomplete := getElem?_of_complete ((hacc p hp).complete hfd) hk
    rw [hbyte, Phdr.byteAt, if_pos ⟨by omega, by omega⟩, Nat.add_sub_cancel_left]
    exact hcomplete
  · have hout : ¬p.InFile (p.p_vaddr + k) := by
      rw [Phdr.InFile]
      omega
    rw [hbyte p hp k hhi, Phdr.byteAt, if_neg hout, if_neg fun hand => hexec hand.1]
  · have hview := hl.view_prog hb (topAt_of_disjoint hd hp hx)
    rw [SegArgs.loaded, if_neg (not_not.mpr hfd)] at hview
    have hpage := congrArg View.page hview
    have hentry := congrArg View.entry hview
    refine ⟨hpage.trans ?_, ?_⟩
    · rw [SegArgs.copied, show (p.seg (env.bti prog) proc.box.min).prot =
        pflags p.p_flags (env.bti prog) from rfl, hostProt_pflags]
      rfl
    · have hworks := hl.works_after hb
      rw [hworks.region.mquery_eq hworks.mapper]
      exact hentry
  · exact (refuses_pflags e p (env.bti prog)).mp (hacc p hp).refuses
  · rw [← (hplace p hp).2]
    refine (le_highest ?_).trans hlayout.end_le.1
    rw [hsegs]
    exact List.mem_map_of_mem hp
  · rw [hl.brkbase] at ha
    have hpage := (hl.brk.shows hpos a ha).page
    exact hostProt_none e.target ▸ hpage
  · refine hlayout.elsewhere a (fun s hs => ?_) hspan
    rw [interpSegs, List.append_nil, hsegs] at hs
    obtain ⟨p, hp, rfl⟩ := List.mem_map.mp hs
    rw [(hplace p hp).1, (hplace p hp).2]
    exact ha p hp

end Loaded

/-- Outside of the box no page and no byte changes. -/
theorem view_of_inBox (hb : InSpace e r proc.box) {st : State}
    (hin : InBox e r ⟨proc.box, proc.host⟩ st) {addr : Nat}
    (haddr : ¬(proc.box.min ≤ addr ∧ addr < proc.box.max)) :
    view e st.box st.host addr = view e proc.box proc.host addr := by
  refine view_of_only hin fun hspan => haddr ?_
  have hmax : e.opts.pagesize ∣ proc.box.max := by
    rw [hb.region.hi, ← hb.region.pagesize]
    exact Nat.dvd_mul_left _ _
  have hmem := mem_of_inSpan hb.dvd_min (Nat.dvd_sub hmax hb.dvd_min) hspan
  omega

/-- A program is loaded faithfully, or nothing outside of the box has changed. -/
theorem image_faithful (hb : InSpace e r proc.box) (hfd : prog.fd = -1) :
    let u := procLoad e env o proc prog none .elfMap a
    (u.1 = true → prog.Disjoint → Faithful e env o prog proc u.2) ∧
      (u.1 = false → ∀ addr, ¬(proc.box.min ≤ addr ∧ addr < proc.box.max) →
        view e u.2.box u.2.host addr = view e proc.box proc.host addr) := by
  intro u
  refine ⟨fun hok hd => ?_, fun _ addr haddr => view_of_inBox hb (inBox_procLoad hb) haddr⟩
  obtain ⟨l, st₁, st₂, hl⟩ := procLoad_loaded hb (eq_of_fst hok)
  exact hl.faithful hb hfd hd

/-- A file that is its own text, and its own data with zeroes behind it. -/
def twoSegments : Buf where
  fd := -1
  data := ehdrBytes 0x40 2 0 0 ++ phdrBytes PF_R 0 0 176 176 ++
    phdrBytes (PF_R + PF_W) 0 0x1000 176 0x1800
  size_lt := by decide +kernel

theorem disjoint_twoSegments : twoSegments.Disjoint := by
  rw [Buf.Disjoint, show twoSegments.loads = [⟨PT_LOAD, PF_R, 0, 0, 176, 176, 4096⟩,
    ⟨PT_LOAD, PF_R + PF_W, 0, 0x1000, 176, 0x1800, 4096⟩] by decide +kernel]
  exact List.pairwise_pair.mpr (by decide)

theorem image_of_twoSegments_faithful :
    Faithful nopEngine richEnv ⟨true, 0x4000⟩ twoSegments newProc
      (procLoad nopEngine richEnv ⟨true, 0x4000⟩ newProc twoSegments none .elfMap
        ⟨none, none⟩).2 := by
  obtain ⟨r, hb⟩ := inSpace_newProc
  exact (image_faithful hb rfl).1 (by decide +kernel) disjoint_twoSegments

/-- An engine that takes any code, also where it can be written. -/
def laxEngine : Engine := { nopEngine with opts := ⟨4096, gb 4, true, true, true⟩ }

theorem inSpace_laxEngine : ∃ r, InSpace laxEngine r newProc.box :=
  @inSpace_new _ _ 0 _ ⟨by decide, by decide, by decide, by decide, by decide, by decide⟩
    (by decide) (by decide) rfl

/-- A file that is its own segment, writable and executable. -/
def writableText : Buf where
  fd := -1
  data := ehdrBytes 0x40 1 0 0 ++ phdrBytes (PF_R + PF_W + PF_X) 0 0 120 120
  size_lt := by decide +kernel

def writableSegment : Phdr := ⟨PT_LOAD, PF_R + PF_W + PF_X, 0, 0, 120, 120, 4096⟩

theorem loads_writableText : writableText.loads = [writableSegment] := by decide +kernel

theorem disjoint_writableText : writableText.Disjoint := by
  rw [Buf.Disjoint, loads_writableText]
  exact List.pairwise_singleton _ _

def writableProc : LFILinuxProc :=
  (procLoad laxEngine richEnv ⟨false, 0⟩ newProc writableText none .elfMap ⟨none, none⟩).2

theorem procLoad_writableText :
    procLoad laxEngine richEnv ⟨false, 0⟩ newProc writableText none .elfMap ⟨none, none⟩ =
      (true, writableProc) := eq_of_fst (by decide +kernel)

theorem writableText_loaded :
    procLoad laxEngine richEnv ⟨false, 0⟩ newProc writableText none .elfMap ⟨none, none⟩ =
        (true, writableProc) ∧
      writableText.Disjoint ∧ writableSegment ∈ writableText.loads ∧ writableSegment.Write ∧
      writableSegment.Exec ∧
      writableProc.host.mem.prot ((newProc.box.min + 0) / laxEngine.opts.pagesize) =
        ⟨true, true, true, false⟩ := by
  have hp : writableSegment ∈ writableText.loads := by
    rw [loads_writableText]
    exact List.mem_cons_self
  obtain ⟨r, hb⟩ := inSpace_laxEngine
  obtain ⟨l, st₁, st₂, hl⟩ := procLoad_loaded hb procLoad_writableText
  have hpage := ((hl.faithful hb rfl disjoint_writableText).pages _ hp 0 (by decide)).1
  refine ⟨procLoad_writableText, disjoint_writableText, hp, by decide, by decide, ?_⟩
  rw [Memory.prot, hpage]
  decide

/-! Padding. -/

/-- The segment has a trap at an address, in the file or as padding. -/
def TrapAt (ps : Nat) (elf : Buf) (q : Phdr) (x : Nat) : Prop :=
  if q.InFile x then elf.data.getD (q.p_offset + (x - q.p_vaddr)) 0 = SAFE_BYTE
  else q.Exec ∧ (x < q.start + ps ∨ q.stop ≤ x + ps)

/-- Wherever an executable segment is padded, the last segment there has a trap. -/
def PadsWithTraps (ps : Nat) (elf : Buf) : Prop :=
  ∀ p ∈ elf.loads, p.Exec → ∀ x, p.covers x = true → ¬p.InFile x →
    ∀ q, elf.topAt x = some q → TrapAt ps elf q x

theorem trapAt_iff (htarget : e.target = x64 ∨ e.target = x64Pku) :
    q.byteAt e elf x = SAFE_BYTE ↔ TrapAt e.opts.pagesize elf q x := by
  have hne : (0 : UInt8) ≠ SAFE_BYTE := by decide
  rw [Phdr.byteAt, TrapAt]
  split_ifs with hin htrap
  · exact Iff.rfl
  · exact iff_of_true rfl ⟨htrap.1, htrap.2.2⟩
  · exact iff_of_false hne fun hand => htrap ⟨hand.1, htarget, hand.2⟩

/-- On x64, the padding of the executable segments is traps exactly if no segment leaves
some of it without. -/
theorem padding_traps_iff (hb : InSpace e r proc.box)
    (htarget : e.target = x64 ∨ e.target = x64Pku) (hfd : prog.fd = -1)
    (hok : procLoad e env o proc prog interp .elfMap a = (true, proc')) :
    (∀ p ∈ prog.loads, p.Exec → ∀ x, p.covers x = true → ¬p.InFile x →
      proc'.host.mem.read e.opts.pagesize (proc.box.min + x) = SAFE_BYTE) ↔
        PadsWithTraps e.opts.pagesize prog := by
  obtain ⟨l, st₁, st₂, hl⟩ := procLoad_loaded hb hok
  constructor
  · intro htraps p hp hexec x hx hout q hq
    have hbyte := htraps p hp hexec x hx hout
    rwa [hl.byte_prog hb hfd hq, trapAt_iff htarget] at hbyte
  · intro hpads p hp hexec x hx hout
    obtain ⟨q, hq⟩ := exists_topAt hp hx
    rw [hl.byte_prog hb hfd hq, trapAt_iff htarget]
    exact hpads p hp hexec x hx hout q hq

/-- An engine that takes any code. -/
def trustingEngine : Engine := { nopEngine with opts := ⟨4096, gb 4, true, false, true⟩ }

/-- One executable segment of three pages. -/
def wideText : Buf where
  fd := -1
  data := ehdrBytes 0x40 1 0 0 ++ phdrBytes (PF_R + PF_X) 0 0 120 0x3000
  size_lt := by decide +kernel

def wideSegment : Phdr := ⟨PT_LOAD, PF_R + PF_X, 0, 0, 120, 0x3000, 4096⟩

theorem loads_wideText : wideText.loads = [wideSegment] := by decide +kernel

theorem inSpace_trustingEngine : ∃ r, InSpace trustingEngine r newProc.box :=
  @inSpace_new _ _ 0 _ ⟨by decide, by decide, by decide, by decide, by decide, by decide⟩
    (by decide) (by decide) rfl

def wideProc : LFILinuxProc :=
  (procLoad trustingEngine richEnv ⟨false, 0⟩ newProc wideText none .elfMap ⟨none, none⟩).2

theorem procLoad_wideText :
    procLoad trustingEngine richEnv ⟨false, 0⟩ newProc wideText none .elfMap ⟨none, none⟩ =
      (true, wideProc) := eq_of_fst (by decide +kernel)

theorem padding_traps_of_wideText :
    (∀ p ∈ wideText.loads, p.Exec → ∀ x, p.covers x = true → ¬p.InFile x →
      wideProc.host.mem.read trustingEngine.opts.pagesize (newProc.box.min + x) = SAFE_BYTE) ↔
        PadsWithTraps trustingEngine.opts.pagesize wideText := by
  obtain ⟨r, hb⟩ := inSpace_trustingEngine
  exact padding_traps_iff hb (.inl rfl) rfl procLoad_wideText

/-- The second page of the segment is left as it is mapped. -/
theorem wideText_padded_with_zero :
    procLoad trustingEngine richEnv ⟨false, 0⟩ newProc wideText none .elfMap ⟨none, none⟩ =
        (true, wideProc) ∧
      wideSegment ∈ wideText.loads ∧ wideSegment.Exec ∧ wideSegment.covers 0x1000 = true ∧
      ¬wideSegment.InFile 0x1000 ∧
      wideProc.host.mem.read trustingEngine.opts.pagesize (newProc.box.min + 0x1000) ≠
        SAFE_BYTE := by
  obtain ⟨r, hb⟩ := inSpace_trustingEngine
  obtain ⟨l, st₁, st₂, hl⟩ := procLoad_loaded hb procLoad_wideText
  have htop : wideText.topAt 0x1000 = some wideSegment := by
    rw [Buf.topAt, loads_wideText]
    decide
  have hbyte := hl.byte_prog hb rfl htop
  refine ⟨procLoad_wideText, by simp [loads_wideText], by decide, by decide, by decide, ?_⟩
  rw [hbyte]
  decide

end LfiRuntime.Elf
