import LfiRuntime.Linux.ElfProc

/-!
The program, its interpreter and the break lie one above the other in the box.
-/

namespace LfiRuntime.Elf

open LfiRuntime.Align
open LfiRuntime.Box
open LfiRuntime.Brk
open LfiRuntime.ByteString
open LfiRuntime.Config
open LfiRuntime.HostCalls
open LfiRuntime.Mmap
open LfiRuntime.PagedMemory

/-- The segments lie in `[lo, hi)`, where the image at `base` has them: no sum has wrapped. -/
def LieIn (elf : Buf) (base lo hi : Nat) (segs : List SegArgs) : Prop :=
  ∀ s ∈ segs, lo ≤ s.start ∧ s.start < s.stop ∧ s.stop ≤ hi ∧
    ∃ p ∈ elf.phdrs, p.Loads ∧ s.start = base + p.start ∧ s.stop = base + p.stop ∧
      p.start ≤ p.p_vaddr ∧ p.p_vaddr + p.p_memsz ≤ p.stop

/-- The layout of a process in its box. -/
structure Layout (e : Engine) (env : LoadEnv) (o : LFILinuxOptions) (proc : LFILinuxProc) (prog : Buf)
    (interp : Option Buf) (proc' : LFILinuxProc) : Prop where
  program : LieIn prog proc.box.min proc.box.min (highest (progSegs env proc.box prog))
    (progSegs env proc.box prog)
  interpreter : ∀ i, interp = some i →
    LieIn i (highest (progSegs env proc.box prog)) (highest (progSegs env proc.box prog))
      (imageEnd env proc.box prog interp) (interpSegs env proc.box prog interp)
  end_le : highest (progSegs env proc.box prog) ≤ proc.box.max ∧
    imageEnd env proc.box prog interp ≤ proc.box.max
  brkbase : proc'.brkbase = imageEnd env proc.box prog interp
  brk : 0 < o.brkmaxsize →
    proc.box.min ≤ proc'.brkbase ∧ proc'.brkbase + o.brkmaxsize ≤ proc.box.max
  mapped : ∀ a, (∃ s ∈ progSegs env proc.box prog ++ interpSegs env proc.box prog interp,
      s.start ≤ a ∧ a < s.stop) ∨ proc'.brkbase ≤ a ∧ a < proc'.brkbase + o.brkmaxsize →
    lfiBoxMquery proc'.box a ≠ none
  elsewhere : ∀ a, (∀ s ∈ progSegs env proc.box prog ++ interpSegs env proc.box prog interp,
      ¬(s.start ≤ a ∧ a < s.stop)) →
    ¬InSpan e.opts.pagesize proc'.brkbase o.brkmaxsize (a / e.opts.pagesize) →
      view e proc'.box proc'.host a = view e proc.box proc.host a
  elfentry : proc'.elfinfo.elfentry = proc.box.min + prog.ehdr.e_entry
  ldentry : ∀ i, interp = some i →
    proc'.elfinfo.ldentry = highest (progSegs env proc.box prog) + i.ehdr.e_entry

variable {e : Engine} {env : LoadEnv} {mapOp : MapOp} {o : LFILinuxOptions} {r : Region}
  {box : LFIBox} {prog elf : Buf} {interp : Option Buf} {base : Nat} {segs : List SegArgs}
  {proc proc' : LFILinuxProc} {a : Allocs}

/-- In the box, a segment ends where its pages do. -/
theorem stop_eq_of_valid {s : SegArgs} (hb : InSpace e r box) (hs : s.Fits e.opts.pagesize)
    (hbuf : lfiBoxBufvalid box s.start s.size = true) :
    box.min ≤ s.start ∧ s.stop = s.start + s.size ∧ s.stop ≤ box.max := by
  have hlt := hb.region.lt
  simp only [lfiBoxBufvalid, Bool.and_eq_true, decide_eq_true_eq] at hbuf
  have hstop := hs.stop_eq (by omega)
  omega

theorem highest_le (hb : InSpace e r box) (hfits : ∀ s ∈ segs, s.Fits e.opts.pagesize)
    (hvalid : ∀ s ∈ segs, lfiBoxBufvalid box s.start s.size = true) : highest segs ≤ box.max := by
  by_cases hne : segs = []
  · rw [hne]
    exact Nat.zero_le _
  · obtain ⟨s, hs, hstop⟩ := exists_highest hne
    rw [← hstop]
    exact (stop_eq_of_valid hb (hfits s hs) (hvalid s hs)).2.2

theorem lieIn_of_valid {ps : Nat} {bti : Bool} (hbase : base ≠ 0) (hroom : base + CODE_MAX < 2 ^ 64)
    (hv : ∀ p ∈ elf.phdrs, p.Loads → p.Valid ps) :
    LieIn elf base base (highest (segsAt bti base elf.phdrs)) (segsAt bti base elf.phdrs) := by
  intro s hs
  obtain ⟨p, hp, hl, -, hstart, hstop, hlt, -⟩ := exists_placed hbase hroom hv hs
  exact ⟨by omega, by omega, le_highest hs, p, hp, hl, hstart, hstop, p.start_le, (hv p hp hl).end_le⟩

/-- The segments of the interpreter lie above the program. -/
theorem lieIn_interp {l : LoadedElf} {st₁ st₂ : State}
    (hl : Loaded e r env o mapOp proc prog interp l st₁ st₂ proc') (hb : InSpace e r proc.box)
    {i : Buf} (hi : interp = some i) :
    LieIn i (highest (progSegs env proc.box prog)) (highest (progSegs env proc.box prog))
        (imageEnd env proc.box prog interp) (interpSegs env proc.box prog interp) ∧
      proc'.elfinfo.ldentry = highest (progSegs env proc.box prog) + i.ehdr.e_entry := by
  have hmin := hb.lt_min
  have hroom := hb.min_add_lt
  have hend : highest (progSegs env proc.box prog) = 0 ∨
      proc.box.min < highest (progSegs env proc.box prog) ∧
        highest (progSegs env proc.box prog) < proc.box.min + CODE_MAX := by
    rcases highest_bounds (show proc.box.min ≠ 0 by omega)
      (show proc.box.min + CODE_MAX < 2 ^ 64 by omega) hl.image.valid (env.bti prog) with
      hnil | hbounds
    · exact .inl (by rw [progSegs, hnil, highest_nil])
    · exact .inr hbounds
  rcases hl.interpImage with ⟨hnone, -⟩ | ⟨i', li, hsome, himage, hldentry⟩
  · rw [hi] at hnone
    cases hnone
  obtain rfl := Option.some.inj (hi.symm.trans hsome)
  subst hi
  have hentry := himage.header.entry_lt
  refine ⟨?_, by rw [hldentry, add64_eq (by omega)]⟩
  have hvalid := (himage.took (hl.took_prog hb).works hb.isAlign (hl.dvd_progEnd hb)).valid
  change LieIn i _ _ (highest (segsAt _ _ i.phdrs)) (segsAt _ _ i.phdrs)
  rcases hend with hzero | ⟨hlo, hhi⟩
  · rw [hzero] at hvalid ⊢
    rw [segsAt_zero_eq_nil (hb.after (hl.took_prog hb)) himage.valid hvalid]
    exact fun s hs => by cases hs
  · exact lieIn_of_valid (by omega) (by omega) himage.valid

namespace Loaded

variable {l : LoadedElf} {st₁ st₂ : State}
  (hl : Loaded e r env o mapOp proc prog interp l st₁ st₂ proc')

include hl

theorem works_after (hb : InSpace e r proc.box) : Works e r proc'.box := by
  rcases Nat.eq_zero_or_pos o.brkmaxsize with hzero | hpos
  · obtain ⟨hbox, -⟩ := hl.brk.empty hzero
    dsimp only at hbox
    rw [hbox]
    exact (hl.took hb).works
  · exact (hl.brk.only hpos).works

/-- The break takes its own pages only. -/
theorem view_brk {addr : Nat} (haddr : ¬(0 < o.brkmaxsize ∧
    InSpan e.opts.pagesize proc'.brkbase o.brkmaxsize (addr / e.opts.pagesize))) :
    view e proc'.box proc'.host addr = view e st₂.box st₂.host addr := by
  rw [hl.brkbase] at haddr
  rcases Nat.eq_zero_or_pos o.brkmaxsize with hzero | hpos
  · obtain ⟨hbox, hhost⟩ := hl.brk.empty hzero
    dsimp only at hbox hhost
    rw [hbox, hhost]
  · exact view_of_only (hl.brk.only hpos) fun hin => haddr ⟨hpos, hin⟩

theorem layout (hb : InSpace e r proc.box) : Layout e env o proc prog interp proc' := by
  have hmin := hb.lt_min
  have hroom := hb.min_add_lt
  have hfits := hl.image.fits hb.isAlign hb.dvd_min
  have htook := hl.took hb
  have hsmall := hl.image.header.entry_lt
  have hbrk := hl.brk
  rw [← hl.brkbase] at hbrk
  obtain ⟨mm, hmm⟩ := htook.box_eq
  have hbuf : ∀ addr size, lfiBoxBufvalid st₂.box addr size = lfiBoxBufvalid proc.box addr size := by
    intro addr size
    rw [hmm]
    rfl
  have hprogEnd := highest_le hb hfits (hl.took_prog hb).valid
  have hinterpEnd : highest (interpSegs env proc.box prog interp) ≤ proc.box.max :=
    highest_le hb (hl.fits_interp hb) fun s hs => htook.valid s (List.mem_append_right _ hs)
  have hend : imageEnd env proc.box prog interp ≤ proc.box.max := by
    rw [imageEnd]
    split
    · exact hinterpEnd
    · exact hprogEnd
  have hworks := hl.works_after hb
  have hcovers : ∀ s ∈ progSegs env proc.box prog ++ interpSegs env proc.box prog interp, ∀ a,
      s.covers a = true ↔ s.start ≤ a ∧ a < s.stop := by
    intro s hs a
    have hs' : s.Fits e.opts.pagesize :=
      (List.mem_append.mp hs).elim (hfits s) (hl.fits_interp hb s)
    rw [SegArgs.covers_iff, (stop_eq_of_valid hb hs' (htook.valid s hs)).2.1]
  refine ⟨lieIn_of_valid (by omega) (by omega) hl.image.valid,
    fun i hi => (lieIn_interp hl hb hi).1, ⟨hprogEnd, hend⟩, hl.brkbase, fun hpos => ?_, ?_, ?_,
    by rw [hl.elfentry, add64_eq (by omega)], fun i hi => (lieIn_interp hl hb hi).2⟩
  · have hvalid := (hbrk.valid hpos).1
    rw [hbuf] at hvalid
    simp only [lfiBoxBufvalid, Bool.and_eq_true, decide_eq_true_eq] at hvalid
    omega
  · intro a ha
    rw [hworks.region.mquery_eq hworks.mapper, ← Option.isSome_iff_ne_none]
    by_cases hspan : 0 < o.brkmaxsize ∧
        InSpan e.opts.pagesize proc'.brkbase o.brkmaxsize (a / e.opts.pagesize)
    · have hentry := (hbrk.shows hspan.1 a hspan.2).entry
      dsimp only at hentry
      rw [hentry]
      rfl
    rcases ha with ⟨s, hs, hlo, hhi⟩ | ⟨hlo, hhi⟩
    · have hentry := congrArg (·.entry.isSome) (hl.view_brk hspan)
      exact hentry.trans (htook.mapped s hs a ((hcovers s hs a).mpr ⟨hlo, hhi⟩))
    · exact absurd ⟨by omega, inSpan_of_mem hb.isAlign.pos hlo hhi⟩ hspan
  · intro a ha hspan
    rw [hl.view_brk fun hand => hspan hand.2]
    refine htook.kept a fun s hs => ?_
    rw [← Bool.not_eq_true, hcovers s hs]
    exact ha s hs

end Loaded

/-- Whatever the headers are, what is loaded lies apart and in the box. -/
theorem layout_of_procLoad (hb : InSpace e r proc.box)
    (hok : procLoad e env o proc prog interp mapOp a = (true, proc')) :
    Layout e env o proc prog interp proc' := by
  obtain ⟨l, st₁, st₂, hl⟩ := procLoad_loaded hb hok
  exact hl.layout hb

/-- A file that is its own segment. -/
def selfSegment : Buf where
  fd := -1
  data := ehdrBytes 0x40 1 0 0 ++ phdrBytes PF_R 0 0 120 120
  size_lt := by decide +kernel

/-- A program that is its own interpreter, and a break of four pages. -/
theorem layout_of_selfSegment :
    Layout nopEngine richEnv ⟨true, 0x4000⟩ newProc selfSegment (some selfSegment)
      (procLoad nopEngine richEnv ⟨true, 0x4000⟩ newProc selfSegment (some selfSegment) .elfMap
        ⟨none, none⟩).2 := by
  obtain ⟨r, hb⟩ := inSpace_newProc
  exact layout_of_procLoad hb (eq_of_fst (by decide +kernel))

end LfiRuntime.Elf
