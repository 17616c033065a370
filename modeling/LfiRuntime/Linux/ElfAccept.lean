import LfiRuntime.Box.Willing
import LfiRuntime.Linux.ElfContents

/-!
Which files `proc_load` accepts, on a host that fails no call.
-/

namespace LfiRuntime.Elf

open LfiRuntime.Align
open LfiRuntime.Box
open LfiRuntime.Brk
open LfiRuntime.ByteString
open LfiRuntime.Config
open LfiRuntime.HostCalls
open LfiRuntime.Mmap
open LfiRuntime.PagedMemory
open LfiRuntime.Runs

/-- What the verifier is shown of a segment. -/
def SegArgs.shown (e : Engine) (files : Int → Nat → UInt8) (buf : Buf) (s : SegArgs) : Bytes :=
  (List.range s.size).map fun i => (s.loaded e files buf (s.start + i)).byte

/-- What a segment needs to be loaded. -/
structure SegArgs.Admissible (e : Engine) (box : LFIBox) (files : Int → Nat → UInt8) (buf : Buf)
    (s : SegArgs) : Prop where
  valid : lfiBoxBufvalid box s.start s.size = true
  accepted : s.Accepted e buf
  verified : consults e s.prot = true → e.lfivVerify s.start (s.shown e files buf) = true

/-- The segment's place in the file can be rounded to pages. -/
structure SegArgs.Aligned (ps : Nat) (s : SegArgs) : Prop where
  isAlign : IsAlign s.p_align
  dvd : ps ∣ s.p_align
  offset_lt : s.p_offset < 2 ^ 64

variable {e : Engine} {env : LoadEnv} {r : Region} {box : LFIBox} {h : Host} {s : SegArgs}
  {buf elf : Buf} {addr size : Nat} {prot : BitVec 32}

/-- Memory without a file that is not executable can be mapped anywhere in the box. -/
theorem mapat_anon (hw : Works e r box) (hh : Willing h) (hconsults : consults e prot = false)
    (hrefuses : refuses e prot = false) (hsize : 0 < size) (haddr : e.opts.pagesize ∣ addr)
    (hbuf : lfiBoxBufvalid box addr size = true) :
    (lfiBoxMapat e box h addr size prot MAP_FLAGS (-1) 0).1.isSome = true := by
  refine (mapat_isSome_iff hw hh (by decide)).mpr
    ⟨hbuf, hw.region.accepts hbuf hsize haddr, hrefuses, .anon, hostSource_anon _ _ _, ?_⟩
  rw [hconsults]
  exact fun hno => nomatch hno

theorem willing_hostWrite (e : Engine) (hh : Willing h) (a : Nat) (bytes : Bytes) :
    Willing (hostWrite e h a bytes) := hh

theorem willing_hostWrites (e : Engine) (hh : Willing h) (writes : List (Nat × Bytes)) :
    Willing (hostWrites e h writes) := by
  induction writes generalizing h with
  | nil => exact hh
  | cons w writes ih => exact ih (willing_hostWrite e hh w.1 w.2)

theorem copySeg_iff (hw : Works e r box) (hs : s.Fits e.opts.pagesize) (hh : Willing h)
    (hfd : buf.fd = -1) :
    (copySeg e box h s buf e.opts.pagesize).1 = true ↔ s.Admissible e box h.mem.files buf := by
  have hsize : sub64 s.stop s.start = s.size := rfl
  simp only [copySeg, bufRead_eq, Option.getD_some, hsize, sanitize_eq]
  have hmap := @mapat_private _ _ _ (LFI_PROT_READ ||| LFI_PROT_WRITE) MAP_FLAGS (-1) 0
    hw h s.start s.size (by decide)
  have hwilling := hh.mapat (e := e) box s.start s.size (LFI_PROT_READ ||| LFI_PROT_WRITE) MAP_FLAGS
    (-1) 0
  have hsome : lfiBoxBufvalid box s.start s.size = true →
      (lfiBoxMapat e box h s.start s.size (LFI_PROT_READ ||| LFI_PROT_WRITE) MAP_FLAGS (-1)
        0).1.isSome = true := by
    intro hbuf
    have hexec : has (LFI_PROT_READ ||| LFI_PROT_WRITE) LFI_PROT_EXEC = false := by decide
    exact mapat_anon hw hh (by rw [consults, hexec]; rfl) (by rw [refuses, hexec]; rfl) hs.size_pos
      hs.start_dvd hbuf
  generalize lfiBoxMapat e box h s.start s.size (LFI_PROT_READ ||| LFI_PROT_WRITE) MAP_FLAGS (-1) 0
    = w at hmap hwilling hsome ⊢
  obtain ⟨res, box₁, h₁⟩ := w
  dsimp only at hmap hwilling hsome ⊢
  rcases hmap with heq | ⟨hbuf, hacc, honly, rfl | ⟨rfl, -, src, hsrc, hshow⟩⟩
  · obtain ⟨rfl, rfl, rfl⟩ : res = none ∧ box₁ = box ∧ h₁ = h := by simpa using heq
    exact iff_of_false Bool.false_ne_true fun hadm => by cases hsome hadm.valid
  · exact iff_of_false Bool.false_ne_true fun hadm => by cases hsome hadm.valid
  obtain rfl := Option.some.inj ((hostSource_anon e.opts.pagesize (-1) 0).symm.trans hsrc)
  have hend : s.start + s.size < 2 ^ 64 := by
    have hlt := hw.region.lt
    simp only [lfiBoxBufvalid, Bool.and_eq_true, decide_eq_true_eq] at hbuf
    omega
  have hroom := hs.room
  have hps := hs.ps_le
  have hshows : ∀ a, s.covers a = true → Shows e box₁ h₁ a 0 (LFI_PROT_READ ||| LFI_PROT_WRITE)
      ⟨LFI_PROT_READ ||| LFI_PROT_WRITE, MAP_FLAGS, -1, 0⟩ :=
    fun a ha => hshow a (hs.inSpan_iff.mpr ha)
  rw [hs.stop_eq hend, sub64_eq (by omega) hend, add64_eq (by omega)]
  dsimp only
  split
  · rename_i hshort
    exact iff_of_false Bool.false_ne_true fun hadm => hshort (hadm.accepted.complete hfd)
  rename_i hcomplete
  have hcomplete : s.Complete buf := not_not.mp hcomplete
  obtain ⟨hwritten, -, hread⟩ := copyWrites_read honly.works hs buf hshows
  have hbytes :
      (hostWrites e h₁ (copyWrites e s ((buf.data.drop s.p_offset).take s.filesz))).mem.readRange
        e.opts.pagesize s.start s.size = s.shown e h.mem.files buf := by
    refine List.map_congr_left fun i hi => ?_
    have hi := List.mem_range.mp hi
    rw [hread hcomplete _ (SegArgs.covers_iff.mpr ⟨by omega, by omega⟩), SegArgs.loaded,
      if_neg (not_not.mpr hfd)]
    rfl
  have hbuf' : lfiBoxBufvalid box₁ s.start s.size = true := by
    obtain ⟨mm, rfl⟩ := honly.box_eq
    exact hbuf
  have hprotect := @boxMprotect_iff _ _ _ _ _ _ s.prot hwritten.works
    (willing_hostWrites e hwilling (copyWrites e s ((buf.data.drop s.p_offset).take s.filesz)))
    hs.size_pos hs.start_dvd hs.size_dvd hbuf'
  rw [hbytes] at hprotect
  rw [decide_eq_true_eq]
  refine hprotect.trans ⟨fun hand => ?_, fun hadm => ⟨hadm.accepted.refuses, hadm.verified⟩⟩
  exact ⟨hbuf, ⟨hand.1, fun hno => absurd hfd hno, fun _ => hcomplete⟩, hand.2⟩

/-- The source of a private mapping of a file. -/
theorem hostSource_file {ps : Nat} {off : Nat} (hfd : 0 ≤ buf.fd) (hoff : off < 2 ^ 63)
    (hdvd : ps ∣ off) :
    hostSource ps LFI_MAP_PRIVATE buf.fd (offT off) = some (.privateFile buf.fd off) := by
  have hflags : has LFI_MAP_PRIVATE LFI_MAP_SHARED = false ∧
      has LFI_MAP_PRIVATE LFI_MAP_PRIVATE = true ∧
        has LFI_MAP_PRIVATE LFI_MAP_ANONYMOUS = false := by decide
  have hint : offT off = (off : Int) := by
    rw [offT, BitVec.toInt_eq_toNat_of_lt] <;> rw [BitVec.toNat_ofNat, Nat.mod_eq_of_lt (by omega)]
    omega
  have hmod : (off : Int) % (ps : Int) = 0 := by
    rw [← Int.natCast_mod, Nat.mod_eq_zero_of_dvd hdvd]
    rfl
  rw [hostSource, hflags.1, hflags.2.1, hflags.2.2, hint]
  simp only [Bool.not_false, Bool.not_true, Bool.and_false, Bool.false_eq_true, if_false]
  rw [if_neg (by omega), Int.toNat_natCast]

/-- Mapping the file is the first thing that can fail. -/
theorem mapFile_isSome_iff (hw : Works e r box) (hs : s.Fits e.opts.pagesize)
    (ha : s.Aligned e.opts.pagesize) (hh : Willing h) (hfd : 0 ≤ buf.fd) :
    (lfiBoxMapat e box h s.start s.size s.prot LFI_MAP_PRIVATE buf.fd
        (offT (truncp s.p_offset s.p_align))).1.isSome = true ↔
      lfiBoxBufvalid box s.start s.size = true ∧ refuses e s.prot = false ∧
        truncp s.p_offset s.p_align < 2 ^ 63 ∧
        (consults e s.prot = true → e.lfivVerify s.start ((List.range s.size).map fun i =>
          h.mem.files buf.fd (truncp s.p_offset s.p_align + i)) = true) := by
  have hdvd : e.opts.pagesize ∣ truncp s.p_offset s.p_align := by
    rw [truncp_eq ha.isAlign ha.offset_lt]
    exact ha.dvd.trans (Nat.dvd_sub_mod _)
  have hbytes : ∀ off, ((List.range s.size).map fun i =>
      sourceByte h.mem.files s.start (s.start + i) (.privateFile buf.fd off)) =
        (List.range s.size).map fun i => h.mem.files buf.fd (off + i) := by
    intro off
    refine List.map_congr_left fun i _ => ?_
    rw [sourceByte, Nat.add_sub_cancel_left]
  rw [mapat_isSome_iff hw hh (by decide)]
  constructor
  · rintro ⟨hbuf, -, hrefuses, src, hsrc, hver⟩
    obtain ⟨rfl, -, hpos⟩ := hostSource_private hsrc
    obtain ⟨hoff, hlt⟩ := toNat_offT (truncp_lt _ _) hpos
    rw [hoff, hbytes] at hver
    exact ⟨hbuf, hrefuses, hlt, hver⟩
  · rintro ⟨hbuf, hrefuses, hlt, hver⟩
    refine ⟨hbuf, hw.region.accepts hbuf hs.size_pos hs.start_dvd, hrefuses, _,
      hostSource_file hfd hlt hdvd, ?_⟩
    rw [hbytes]
    exact hver

theorem mapFileSeg_iff (hw : Works e r box) (hs : s.Fits e.opts.pagesize)
    (ha : s.Aligned e.opts.pagesize) (hh : Willing h) (hfd : 0 ≤ buf.fd) :
    (mapFileSeg e box h s buf).1 = true ↔ s.Admissible e box h.mem.files buf := by
  have hsize : sub64 s.stop s.start = s.size := rfl
  have hne : buf.fd ≠ -1 := by omega
  have hmap := mapFile_isSome_iff hw hs ha hh hfd
  have hshown : (s.HasBss → has s.prot LFI_PROT_WRITE = true) → consults e s.prot = true →
      ((List.range s.size).map fun i => h.mem.files buf.fd (truncp s.p_offset s.p_align + i)) =
        s.shown e h.mem.files buf := by
    intro hwrite hconsults
    have hno : ¬s.HasBss := by
      intro hbss
      rw [consults, hwrite hbss] at hconsults
      simp at hconsults
    refine List.map_congr_left fun i _ => ?_
    rw [SegArgs.loaded, if_pos hne, SegArgs.mapped]
    simp only [hno, false_and, if_false, Nat.add_sub_cancel_left]
  have hadm : s.Admissible e box h.mem.files buf ↔ (s.HasBss → has s.prot LFI_PROT_WRITE = true) ∧
      lfiBoxBufvalid box s.start s.size = true ∧ refuses e s.prot = false ∧
        truncp s.p_offset s.p_align < 2 ^ 63 ∧
        (consults e s.prot = true → e.lfivVerify s.start ((List.range s.size).map fun i =>
          h.mem.files buf.fd (truncp s.p_offset s.p_align + i)) = true) := by
    constructor
    · intro hadm
      obtain ⟨hwrite, hoff⟩ := hadm.accepted.mappable hne
      refine ⟨hwrite, hadm.valid, hadm.accepted.refuses, hoff, fun hconsults => ?_⟩
      rw [hshown hwrite hconsults]
      exact hadm.verified hconsults
    · rintro ⟨hwrite, hbuf, hrefuses, hoff, hver⟩
      refine ⟨hbuf, ⟨hrefuses, fun _ => ⟨hwrite, hoff⟩, fun h => absurd h hne⟩, fun hconsults => ?_⟩
      rw [← hshown hwrite hconsults]
      exact hver hconsults
  rw [hadm, ← hmap]
  simp only [mapFileSeg, hsize]
  have hcases := only_mapat hw h s.start s.size s.prot LFI_MAP_PRIVATE buf.fd
    (offT (truncp s.p_offset s.p_align))
  have hwilling := hh.mapat (e := e) box s.start s.size s.prot LFI_MAP_PRIVATE buf.fd
    (offT (truncp s.p_offset s.p_align))
  rw [← lfiBoxMapat] at hcases
  generalize lfiBoxMapat e box h s.start s.size s.prot LFI_MAP_PRIVATE buf.fd
    (offT (truncp s.p_offset s.p_align)) = w at hmap hcases hwilling ⊢
  obtain ⟨res, box₁, h₁⟩ := w
  dsimp only at hmap hcases hwilling ⊢
  cases res with
  | none => simp
  | some p =>
      obtain ⟨hbuf, hrefuses, -⟩ := hmap.mp rfl
      simp only [Option.isNone_some, Bool.false_eq_true, if_false, Option.isSome_some, and_true]
      have hbss : s.memsz > s.filesz ↔ s.HasBss := Iff.rfl
      simp only [hbss]
      split
      · rename_i hbss
        simp only [hbss, true_implies]
        cases hwrite : has s.prot LFI_PROT_WRITE with
        | false => simp
        | true =>
            simp only [Bool.not_true, Bool.false_eq_true, if_false, iff_true]
            have hend : s.start + s.size < 2 ^ 64 := by
              have hlt := hw.region.lt
              simp only [lfiBoxBufvalid, Bool.and_eq_true, decide_eq_true_eq] at hbuf
              omega
            have hroom := hs.room
            obtain ⟨hdvd, hle, hstop⟩ := hs.bssRest_spec hend hbss
            have hdata : s.data = s.start + s.offset := rfl
            have hlt : s.filesz < s.memsz := hbss
            have hx : add64 (add64 s.start s.offset) s.filesz = s.data + s.filesz := by
              rw [add64_eq (by omega : s.start + s.offset < 2 ^ 64), add64_eq (by omega), hdata]
            have hceil : ceilp (s.data + s.filesz) e.opts.pagesize = s.bssRest e := rfl
            rw [hs.stop_eq hend, hx, hceil, sub64_eq hle (by omega), sub64_eq hstop hend]
            split
            · have hconsults : consults e s.prot = false := by
                rw [consults, hwrite]
                simp
              have hrest : lfiBoxBufvalid box₁ (s.bssRest e) (s.start + s.size - s.bssRest e) =
                  true := by
                obtain ⟨mm, rfl⟩ := hcases.box_eq
                simp only [lfiBoxBufvalid, Bool.and_eq_true, decide_eq_true_eq] at hbuf ⊢
                omega
              exact mapat_anon hcases.works (willing_hostWrite e hwilling _ _) hconsults hrefuses
                (by omega) hdvd hrest
            · rfl
      · rename_i hbss
        simp [hbss]

/-- A segment is loaded exactly if it is admissible. -/
theorem bufReadElfseg_iff (hw : Works e r box) (hs : s.Fits e.opts.pagesize)
    (ha : s.Aligned e.opts.pagesize) (hh : Willing h) (hfd : -1 ≤ buf.fd) (env : LoadEnv) :
    (bufReadElfseg e env box h s buf e.opts.pagesize .elfMap).1 = true ↔
      s.Admissible e box h.mem.files buf := by
  have hremap : ¬(MapOp.elfMap = .elfRemap ∧ has s.prot LFI_PROT_EXEC = true) :=
    fun hand => nomatch hand.1
  rw [bufReadElfseg, if_neg hremap]
  split
  · rename_i hne
    exact mapFileSeg_iff hw hs ha hh (by omega)
  · rename_i hfile
    exact copySeg_iff hw hs hh (not_not.mp hfile)

theorem willing_bufReadElfseg (hh : Willing h) (env : LoadEnv) (box : LFIBox) (s : SegArgs)
    (buf : Buf) (ps : Nat) : Willing (bufReadElfseg e env box h s buf ps .elfMap).2.2 := by
  have hremap : ¬(MapOp.elfMap = .elfRemap ∧ has s.prot LFI_PROT_EXEC = true) :=
    fun hand => nomatch hand.1
  rw [bufReadElfseg, if_neg hremap]
  split
  · have hmap := hh.mapat (e := e) box s.start (sub64 s.stop s.start) s.prot LFI_MAP_PRIVATE buf.fd
      (offT (truncp s.p_offset s.p_align))
    simp only [mapFileSeg]
    split_ifs
    · exact hmap
    · exact hmap
    · exact (willing_hostWrite e hmap _ _).mapat ..
    · exact hmap
    · exact hmap
  · have hmap := hh.mapat (e := e) box s.start (sub64 s.stop s.start)
      (LFI_PROT_READ ||| LFI_PROT_WRITE) MAP_FLAGS (-1) 0
    simp only [copySeg, sanitize_eq]
    split
    · exact hmap
    · split
      · exact hmap
      · exact Willing.boxMprotect (willing_hostWrite e (willing_hostWrite e (willing_hostWrite e hmap
          _ _) _ _) _ _) ..

/-! The loop. -/

variable {st st' : State} {segs : List SegArgs}

theorem admissible_with_mm {files : Int → Nat → UInt8} (mm : AddrSpace) :
    s.Admissible e { box with mm := mm } files buf ↔ s.Admissible e box files buf :=
  ⟨fun hadm => ⟨hadm.valid, hadm.accepted, hadm.verified⟩,
    fun hadm => ⟨hadm.valid, hadm.accepted, hadm.verified⟩⟩

theorem willing_of_trace (hh : Willing st.host)
    (htrace : Trace (SegStep e env elf .elfMap) st segs st') : Willing st'.host := by
  induction segs generalizing st with
  | nil =>
      obtain rfl := trace_nil_iff.mp htrace
      exact hh
  | cons seg segs ih =>
      obtain ⟨t, hstep, hrest⟩ := trace_cons_iff.mp htrace
      have hwilling := willing_bufReadElfseg (e := e) hh env st.box seg elf e.opts.pagesize
      rw [SegStep] at hstep
      rw [hstep] at hwilling
      exact ih hwilling hrest

/-- All segments are loaded exactly if each is admissible. -/
theorem exists_trace_iff (hw : Works e r st.box) (hh : Willing st.host)
    (hfits : ∀ s ∈ segs, s.Fits e.opts.pagesize) (ha : ∀ s ∈ segs, s.Aligned e.opts.pagesize)
    (hfd : -1 ≤ elf.fd) (env : LoadEnv) :
    (∃ st', Trace (SegStep e env elf .elfMap) st segs st') ↔
      ∀ s ∈ segs, s.Admissible e st.box st.host.mem.files elf := by
  induction segs generalizing st with
  | nil =>
      refine iff_of_true ⟨st, trace_nil_iff.mpr rfl⟩ ?_
      simp
  | cons seg segs ih =>
      have hs := hfits seg List.mem_cons_self
      have hload := bufReadElfseg_iff hw hs (ha seg List.mem_cons_self) hh hfd env
      have hwilling := willing_bufReadElfseg (e := e) hh env st.box seg elf e.opts.pagesize
      have hcases := bufReadElfseg_cases hw hs env st.host elf
      rw [List.forall_mem_cons, ← hload]
      generalize hu : bufReadElfseg e env st.box st.host seg elf e.opts.pagesize .elfMap = u
        at hload hwilling hcases ⊢
      obtain ⟨ok, box', h'⟩ := u
      cases ok with
      | false =>
          refine iff_of_false ?_ fun hand => nomatch hand.1
          rintro ⟨st', htrace⟩
          obtain ⟨t, hstep, -⟩ := trace_cons_iff.mp htrace
          rw [SegStep, hu] at hstep
          cases (Prod.mk.inj hstep).1
      | true =>
          dsimp only at hload hwilling hcases
          rcases hcases with hfail | ⟨-, honly, -⟩
          · cases (Prod.mk.inj hfail).1
          obtain ⟨mm, rfl⟩ := honly.box_eq
          have hrest := @ih ⟨{ st.box with mm := mm }, h'⟩ honly.works hwilling
            (fun s hs => hfits s (List.mem_cons_of_mem _ hs))
            (fun s hs => ha s (List.mem_cons_of_mem _ hs))
          simp only [admissible_with_mm, honly.files] at hrest
          rw [← hrest]
          simp only [true_and]
          refine exists_congr fun st' => ?_
          rw [trace_cons_iff]
          constructor
          · rintro ⟨t, hstep, htrace⟩
            rw [SegStep, hu] at hstep
            obtain ⟨hbox, hhost⟩ := Prod.mk.inj (Prod.mk.inj hstep).2
            rw [hbox, hhost]
            exact htrace
          · exact fun htrace => ⟨⟨{ st.box with mm := mm }, h'⟩, hu, htrace⟩

/-! Images. -/

variable {files : Int → Nat → UInt8} {base : Nat} {o : LFILinuxOptions} {prog : Buf}
  {interp : Option Buf} {proc : LFILinuxProc} {a : Allocs}

/-- What an image needs to be loaded at `base`. -/
structure ImageOk (e : Engine) (env : LoadEnv) (box : LFIBox) (files : Int → Nat → UInt8) (elf : Buf)
    (base : Nat) : Prop where
  header : HeaderOk env elf
  valid : ∀ p ∈ elf.phdrs, p.Loads → p.Valid e.opts.pagesize
  admissible : ∀ s ∈ segsAt (env.bti elf) base elf.phdrs, s.Admissible e box files elf

theorem aligned_of_mem {ps : Nat} {bti : Bool} (hps : IsAlign ps) (hbase : ps ∣ base)
    (hv : ∀ p ∈ elf.phdrs, p.Loads → p.Valid ps) : ∀ s ∈ segsAt bti base elf.phdrs, s.Aligned ps := by
  intro s hs
  obtain ⟨p, hp, hl, base', -, rfl⟩ := exists_phdr_of_mem hps hbase hv hs
  exact ⟨(hv p hp hl).isAlign, (hv p hp hl).dvd, (inRange_phdrs elf p hp).offset⟩

theorem elfLoadOne_isSome_iff (hps : IsAlign e.opts.pagesize) (hw : Works e r box) (hh : Willing h)
    (hbase : e.opts.pagesize ∣ base) (hfd : -1 ≤ elf.fd) :
    (elfLoadOne e env box h elf base e.opts.pagesize .elfMap).1.isSome = true ↔
      ImageOk e env box h.mem.files elf base := by
  have htrace : (∀ p ∈ elf.phdrs, p.Loads → p.Valid e.opts.pagesize) →
      ((∃ st', Trace (SegStep e env elf .elfMap) ⟨box, h⟩ (segsAt (env.bti elf) base elf.phdrs) st') ↔
        ∀ s ∈ segsAt (env.bti elf) base elf.phdrs, s.Admissible e box h.mem.files elf) := by
    intro hv
    exact @exists_trace_iff _ _ _ ⟨box, h⟩ _ hw hh (fits_of_mem hps hbase hv)
      (aligned_of_mem hps hbase hv) hfd env
  constructor
  · intro hsome
    obtain ⟨l, hl⟩ := Option.isSome_iff_exists.mp hsome
    obtain ⟨-, -, -, -, -, -, himage⟩ := image_of_loaded (Prod.ext hl rfl)
    exact ⟨himage.header, himage.valid, (htrace himage.valid).mp ⟨_, himage.trace⟩⟩
  · rintro ⟨hheader, hvalid, hadm⟩
    obtain ⟨st', hrun⟩ := (htrace hvalid).mpr hadm
    obtain ⟨s', hloop, -⟩ := (@loadSegments_iff _ _ _ _ base _ ⟨box, h, base, 0, 0⟩ _
      (inRange_phdrs elf)).mpr ⟨hvalid, hrun⟩
    rcases elfLoadOne_eq e env box h elf base .elfMap with ⟨hno, -⟩ | ⟨-, heq⟩
    · exact absurd hheader hno
    · rw [heq, hloop]
      rfl

theorem imageOk_with_mm (mm : AddrSpace) :
    ImageOk e env { box with mm := mm } files elf base ↔ ImageOk e env box files elf base :=
  ⟨fun hi => ⟨hi.header, hi.valid, fun s hs => (admissible_with_mm mm).mp (hi.admissible s hs)⟩,
    fun hi => ⟨hi.header, hi.valid, fun s hs => (admissible_with_mm mm).mpr (hi.admissible s hs)⟩⟩

theorem elfLoad_isSome_iff (hb : InSpace e r box) (hh : Willing h) (hfd : -1 ≤ prog.fd)
    (hifd : ∀ i, interp = some i → -1 ≤ i.fd) :
    (elfLoad e env box h prog interp .elfMap).1.isSome = true ↔
      ImageOk e env box h.mem.files prog box.min ∧
        ∀ i, interp = some i →
          ImageOk e env box h.mem.files i (highest (progSegs env box prog)) := by
  rw [← elfLoadOne_isSome_iff hb.isAlign hb.toWorks hh hb.dvd_min hfd]
  simp only [elfLoad]
  generalize hu : elfLoadOne e env box h prog box.min e.opts.pagesize .elfMap = u
  obtain ⟨res, box₁, h₁⟩ := u
  cases res with
  | none => simp
  | some l =>
      cases interp with
      | none => simp
      | some i =>
          have hmin := hb.lt_min
          obtain ⟨himage, -, hlast, -⟩ :=
            image_numbers hb.toWorks hb.isAlign (by omega) hb.dvd_min hb.min_ne_zero hu
          have htook := himage.took hb.toWorks hb.isAlign hb.dvd_min
          have hdvd := dvd_highest (himage.fits hb.isAlign hb.dvd_min) htook.valid hb.region.lt
          have hwilling : Willing h₁ := @willing_of_trace _ _ _ ⟨box, h⟩ _ _ hh himage.trace
          have hfiles := (himage.loaded hb.toWorks hb.isAlign hb.dvd_min).files
          obtain ⟨mm, hmm⟩ := htook.box_eq
          have hsecond := @elfLoadOne_isSome_iff _ env _ _ _ _ _ hb.isAlign htook.works hwilling hdvd
            (hifd i rfl)
          dsimp only at hmm hfiles hsecond
          rw [hfiles, hmm, imageOk_with_mm, ← hmm] at hsecond
          simp only [Option.isSome_some, Option.some.injEq, forall_eq', true_and, hlast]
          rw [progSegs, ← hsecond]
          generalize elfLoadOne e env box₁ h₁ i _ e.opts.pagesize .elfMap = v
          obtain ⟨res, box₂, h₂⟩ := v
          cases res with
          | none => simp
          | some li => simp

/-- What a process needs to be loaded: its images, and room for the break. -/
structure ProcOk (e : Engine) (env : LoadEnv) (o : LFILinuxOptions) (box : LFIBox)
    (files : Int → Nat → UInt8) (prog : Buf) (interp : Option Buf) : Prop where
  program : ImageOk e env box files prog box.min
  interpreter : ∀ i, interp = some i →
    ImageOk e env box files i (highest (progSegs env box prog))
  brk : 0 < o.brkmaxsize →
    lfiBoxBufvalid box (imageEnd env box prog interp) o.brkmaxsize = true

theorem elfLoad_after {info : ELFLoadInfo} {box' : LFIBox} {h' : Host} (hb : InSpace e r box)
    (hh : Willing h) (hok : elfLoad e env box h prog interp .elfMap = (some info, box', h')) :
    Works e r box' ∧ (∃ mm, box' = { box with mm := mm }) ∧ Willing h' ∧
      e.opts.pagesize ∣ info.lastva ∧ info.lastva = imageEnd env box prog interp := by
  obtain ⟨l, st₁, himage, -, -, hlast, hinterp⟩ := elfLoad_ok hb hok
  have htook := himage.took hb.toWorks hb.isAlign hb.dvd_min
  have hdvd := dvd_highest (himage.fits hb.isAlign hb.dvd_min) htook.valid hb.region.lt
  have hwilling := @willing_of_trace _ _ _ ⟨box, h⟩ _ _ hh himage.trace
  rw [hlast]
  rcases hinterp with ⟨rfl, rfl⟩ | ⟨i, li, rfl, himage', -⟩
  · exact ⟨htook.works, htook.box_eq, hwilling, hdvd, rfl⟩
  · have htook' := himage'.took htook.works hb.isAlign hdvd
    obtain ⟨mm, hmm⟩ := htook.box_eq
    obtain ⟨mm', hmm'⟩ := htook'.box_eq
    have hlt : st₁.box.max < 2 ^ 64 := by
      rw [hmm]
      exact hb.region.lt
    have hdvd' := dvd_highest (himage'.fits hb.isAlign hdvd) htook'.valid hlt
    rw [hmm] at hmm'
    exact ⟨htook'.works, ⟨mm', hmm'⟩, willing_of_trace hwilling himage'.trace, hdvd', rfl⟩

theorem reserveBrk_iff (hw : Works e r proc.box) (hh : Willing proc.host)
    (hdvd : e.opts.pagesize ∣ proc.elfinfo.lastva) :
    (reserveBrk e o proc).1 = true ↔
      (0 < o.brkmaxsize → lfiBoxBufvalid proc.box proc.elfinfo.lastva o.brkmaxsize = true) := by
  rw [reserveBrk]
  split
  · rename_i hpos
    dsimp only at hpos ⊢
    have hexec : has LFI_PROT_NONE LFI_PROT_EXEC = false := by decide
    constructor
    · exact fun hsome _ => ((mapat_isSome_iff hw hh (by decide)).mp hsome).1
    · intro hbuf
      exact mapat_anon hw hh (by rw [consults, hexec]; rfl) (by rw [refuses, hexec]; rfl) hpos hdvd
        (hbuf hpos)
  · rename_i hzero
    exact iff_of_true rfl fun hpos => absurd hpos hzero

/-- A process is loaded exactly if its images are acceptable and there is room for the break. -/
theorem procLoad_iff (hb : InSpace e r proc.box) (hh : Willing proc.host) (hfd : -1 ≤ prog.fd)
    (hifd : ∀ i, interp = some i → -1 ≤ i.fd) :
    (procLoad e env o proc prog interp .elfMap a).1 = true ↔
      ProcOk e env o proc.box proc.host.mem.files prog interp := by
  have hload := @elfLoad_isSome_iff _ env _ _ _ _ _ hb hh hfd hifd
  simp only [procLoad]
  generalize hu : elfLoad e env proc.box proc.host prog interp .elfMap = u at hload ⊢
  obtain ⟨info, box', h'⟩ := u
  cases info with
  | none =>
      refine iff_of_false Bool.false_ne_true fun hp => ?_
      cases hload.mpr ⟨hp.program, hp.interpreter⟩
  | some info =>
      obtain ⟨himage, hinterp⟩ := hload.mp rfl
      obtain ⟨hworks, ⟨mm, hmm⟩, hwilling, hdvd, hlast⟩ := elfLoad_after hb hh hu
      obtain ⟨res, hres, hsyms⟩ :=
        elfLoadsyms_cases (withImage proc interp info ⟨box', h'⟩) prog a
      obtain ⟨hbox, hhost, hinfo, -⟩ := hsyms.frame
      change res.2.box = box' at hbox
      change res.2.host = h' at hhost
      change res.2.elfinfo = info at hinfo
      rw [← hbox] at hworks
      rw [← hhost] at hwilling
      rw [← hinfo] at hdvd
      have hbrk := @reserveBrk_iff _ _ o res.2 hworks hwilling hdvd
      rw [hbox, hinfo] at hbrk
      change (reserveBrk e o
        ((elfLoadsyms (withImage proc interp info ⟨box', h'⟩) prog a).getD _).2).1 = true ↔ _
      rw [hres, Option.getD_some, hbrk]
      rw [hlast, hmm, bufvalid_with_mm]
      exact ⟨fun hroom => ⟨himage, hinterp, hroom⟩, fun hp => hp.brk⟩

end LfiRuntime.Elf
