import LfiRuntime.Linux.BrkRuns
import LfiRuntime.Linux.ElfImage
import LfiRuntime.Linux.ElfLoadsyms

/-!
`proc_load`: a program and its interpreter, in a box of the engine.
-/

namespace LfiRuntime.Elf

open LfiRuntime.Align
open LfiRuntime.Box
open LfiRuntime.Brk
open LfiRuntime.ByteString
open LfiRuntime.Config
open LfiRuntime.HostCalls
open LfiRuntime.Layers
open LfiRuntime.Mmap
open LfiRuntime.PagedMemory
open LfiRuntime.Runs

/-- The box is in a space of the allocator of boxes, which hands out chunks of 4 GiB. -/
structure InSpace (e : Engine) (r : Region) (box : LFIBox) : Prop extends Works e r box where
  isAlign : IsAlign e.opts.pagesize
  base_pos : 0 < box.base
  base_dvd : gb 4 ∣ box.base
  base_lt : box.base < 2 ^ 64
  base_le : box.base ≤ box.min
  min_le : box.min ≤ box.base + kb 192

/-- A box that has been made in such a space. -/
theorem inSpace_new {e : Engine} {base : Nat} {seed : UInt64} {box : LFIBox} (hp : Placed e base)
    (hpos : 0 < base) (hdvd : gb 4 ∣ base) (hnew : lfiBoxNew e base seed = some box) :
    ∃ r, InSpace e r box := by
  obtain ⟨r, hregion, hmapper, -⟩ := boxRegion_new hp hnew
  obtain ⟨-, hguard⟩ := boxInternalGuard_of_mem hp.target_mem
  have hpsle : e.opts.pagesize ≤ kb 64 := Nat.le_of_dvd (by decide) hp.pagesize_dvd
  have halign : IsAlign e.opts.pagesize := by
    refine ⟨r.p2, ?_, hregion.pagesize⟩
    have hpow : 2 ^ r.p2 < 2 ^ 64 := by
      rw [← Region.pagesize, ← hregion.pagesize]
      exact hpsle.trans_lt (by decide)
    exact (Nat.pow_lt_pow_iff_right (by decide)).mp hpow
  have hbox : box.base = base ∧ box.min = base +
      if e.target.boxInternalGuard > e.opts.pagesize then e.target.boxInternalGuard
      else e.opts.pagesize := by
    simp only [lfiBoxNew] at hnew
    split at hnew
    · cases hnew
    · obtain rfl := Option.some.inj hnew
      exact ⟨rfl, rfl⟩
  have hsmall : kb 64 ≤ kb 192 := by decide
  have hfits := hp.fits
  refine ⟨r, ⟨hregion, hmapper⟩, halign, hbox.1 ▸ hpos, hbox.1 ▸ hdvd, by omega, by omega, ?_⟩
  rw [hbox.1, hbox.2]
  split <;> omega

namespace InSpace

variable {e : Engine} {r : Region} {box : LFIBox} (hb : InSpace e r box)

include hb

/-- The whole box is above the addresses that an image may have of its own. -/
theorem lt_min : CODE_MAX < box.min := by
  have hle := Nat.le_of_dvd hb.base_pos hb.base_dvd
  have hbase := hb.base_le
  have hcode : CODE_MAX < gb 4 := by decide
  omega

/-- Above it there is room for two images. -/
theorem min_add_lt : box.min + (CODE_MAX + CODE_MAX) < 2 ^ 64 := by
  have hdvd : gb 4 ∣ 2 ^ 64 - box.base := Nat.dvd_sub (by decide) hb.base_dvd
  have hlt := hb.base_lt
  have hle := Nat.le_of_dvd (by omega) hdvd
  have hmin := hb.min_le
  have hcode : kb 192 + (CODE_MAX + CODE_MAX) < gb 4 := by decide
  omega

theorem min_ne_zero : box.min ≠ 0 := by
  have hmin := hb.lt_min
  omega

theorem min_add_code_lt : box.min + CODE_MAX < 2 ^ 64 := by
  have hroom := hb.min_add_lt
  omega

theorem dvd_min : e.opts.pagesize ∣ box.min := by
  rw [hb.region.lo, ← hb.region.pagesize]
  exact Nat.dvd_mul_left _ _

theorem with_mm {mm : AddrSpace} (hw : Works e r { box with mm := mm }) :
    InSpace e r { box with mm := mm } :=
  ⟨hw, hb.isAlign, hb.base_pos, hb.base_dvd, hb.base_lt, hb.base_le, hb.min_le⟩

end InSpace

/-! Where the images are. -/

/-- The segments of a program in the box. -/
def progSegs (env : LoadEnv) (box : LFIBox) (prog : Buf) : List SegArgs :=
  segsAt (env.bti prog) box.min prog.phdrs

/-- The segments of its interpreter, which is loaded above it. -/
def interpSegs (env : LoadEnv) (box : LFIBox) (prog : Buf) : Option Buf → List SegArgs
  | none => []
  | some i => segsAt (env.bti i) (highest (progSegs env box prog)) i.phdrs

/-- The end of the images. -/
def imageEnd (env : LoadEnv) (box : LFIBox) (prog : Buf) (interp : Option Buf) : Nat :=
  if interp.isSome then highest (interpSegs env box prog interp) else highest (progSegs env box prog)

variable {e : Engine} {env : LoadEnv} {mapOp : MapOp} {o : LFILinuxOptions} {r : Region}
  {box box' : LFIBox} {h h' : Host} {prog elf : Buf} {interp : Option Buf} {base : Nat}
  {info : ELFLoadInfo} {proc proc' : LFILinuxProc} {a : Allocs} {st st' : State}

theorem le_highest {segs : List SegArgs} {s : SegArgs} (hs : s ∈ segs) : s.stop ≤ highest segs := by
  rw [highest]
  cases hmax : (segs.map SegArgs.stop).max? with
  | none =>
      rw [List.max?_eq_none_iff, List.map_eq_nil_iff] at hmax
      rw [hmax] at hs
      cases hs
  | some m => exact (List.max?_eq_some_iff.mp hmax).2 _ (List.mem_map_of_mem hs)

theorem exists_highest {segs : List SegArgs} (hne : segs ≠ []) :
    ∃ s ∈ segs, s.stop = highest segs := by
  rw [highest]
  cases hmax : (segs.map SegArgs.stop).max? with
  | none =>
      rw [List.max?_eq_none_iff, List.map_eq_nil_iff] at hmax
      exact absurd hmax hne
  | some m =>
      obtain ⟨s, hs, hstop⟩ := List.mem_map.mp (List.max?_mem hmax)
      exact ⟨s, hs, hstop⟩

/-- A segment of an image at a base that leaves room for it. -/
theorem exists_placed {ps : Nat} (hbase : base ≠ 0) (hroom : base + CODE_MAX < 2 ^ 64)
    (hv : ∀ p ∈ elf.phdrs, p.Loads → p.Valid ps) {bti : Bool} {s : SegArgs}
    (hs : s ∈ segsAt bti base elf.phdrs) :
    ∃ p ∈ elf.phdrs, p.Loads ∧ s = p.seg bti base ∧ s.start = base + p.start ∧
      s.stop = base + p.stop ∧ p.start < p.stop ∧ p.stop < CODE_MAX := by
  rw [segsAt_eq hbase] at hs
  obtain ⟨p, hp, rfl⟩ := List.mem_map.mp hs
  obtain ⟨hp, hl⟩ := List.mem_filter.mp hp
  have hl : p.Loads := by simpa using hl
  have hlt := (hv p hp hl).start_lt hl
  have hstop := (hv p hp hl).stop_lt
  exact ⟨p, hp, hl, rfl, add64_eq (by omega), add64_eq (by omega), hlt, hstop⟩

/-- The end of an image above the box's start. -/
theorem highest_bounds {ps : Nat} (hbase : base ≠ 0) (hroom : base + CODE_MAX < 2 ^ 64)
    (hv : ∀ p ∈ elf.phdrs, p.Loads → p.Valid ps) (bti : Bool) :
    segsAt bti base elf.phdrs = [] ∨
      base < highest (segsAt bti base elf.phdrs) ∧
        highest (segsAt bti base elf.phdrs) < base + CODE_MAX := by
  by_cases hne : segsAt bti base elf.phdrs = []
  · exact .inl hne
  · obtain ⟨s, hs, hstop⟩ := exists_highest hne
    obtain ⟨p, -, -, -, -, hend, hlt, hmax⟩ := exists_placed hbase hroom hv hs
    rw [← hstop, hend]
    exact .inr ⟨by omega, by omega⟩

theorem highest_nil : highest [] = 0 := rfl

theorem dvd_highest {segs : List SegArgs} {ps : Nat} (hfits : ∀ s ∈ segs, s.Fits ps)
    (hvalid : ∀ s ∈ segs, lfiBoxBufvalid box s.start s.size = true) (hlt : box.max < 2 ^ 64) :
    ps ∣ highest segs := by
  by_cases hne : segs = []
  · rw [hne]
    exact dvd_zero _
  · obtain ⟨s, hs, hstop⟩ := exists_highest hne
    have hbuf := hvalid s hs
    simp only [lfiBoxBufvalid, Bool.and_eq_true, decide_eq_true_eq] at hbuf
    rw [← hstop, (hfits s hs).stop_eq (by omega)]
    exact dvd_add (hfits s hs).start_dvd (hfits s hs).size_dvd

theorem segsAt_eq_nil_or (base : Nat) (bti : Bool) (phdrs : List Phdr) :
    segsAt bti base phdrs = [] ∨
      ∃ p ∈ phdrs, p.Loads ∧ ∃ rest, segsAt bti base phdrs = p.seg bti base :: rest := by
  induction phdrs with
  | nil => exact .inl rfl
  | cons p phdrs ih =>
      rw [segsAt]
      split
      · rename_i hl
        exact .inr ⟨p, List.mem_cons_self, hl, _, rfl⟩
      · rcases ih with hnil | ⟨q, hq, hl, rest, heq⟩
        · exact .inl hnil
        · exact .inr ⟨q, List.mem_cons_of_mem _ hq, hl, rest, heq⟩

theorem InSpace.after {segs : List SegArgs} (hb : InSpace e r st.box)
    (htook : AllTook e r segs st st') : InSpace e r st'.box := by
  obtain ⟨mm, hmm⟩ := htook.box_eq
  have hworks := htook.works
  rw [hmm] at hworks ⊢
  exact hb.with_mm hworks

/-- No segment of an image without a base gets into the box. -/
theorem segsAt_zero_eq_nil {bti : Bool} (hb : InSpace e r box)
    (hv : ∀ p ∈ elf.phdrs, p.Loads → p.Valid e.opts.pagesize)
    (hvalid : ∀ s ∈ segsAt bti 0 elf.phdrs, lfiBoxBufvalid box s.start s.size = true) :
    segsAt bti 0 elf.phdrs = [] := by
  rcases segsAt_eq_nil_or 0 bti elf.phdrs with hnil | ⟨p, hp, hl, rest, heq⟩
  · exact hnil
  · have hbuf := hvalid (p.seg bti 0) (heq ▸ List.mem_cons_self)
    have hlt := (hv p hp hl).start_lt hl
    have hstop := (hv p hp hl).stop_lt
    have hmin := hb.lt_min
    have hcode : CODE_MAX < 2 ^ 64 := by decide
    have hstart : (p.seg bti 0).start = p.start :=
      (add64_eq (by omega)).trans (Nat.zero_add _)
    simp only [lfiBoxBufvalid, Bool.and_eq_true, decide_eq_true_eq] at hbuf
    omega

/-- An image that is loaded has been placed at its base, also where that is 0. -/
theorem image_at {l : LoadedElf} (hb : InSpace e r box) (hdvd : e.opts.pagesize ∣ base)
    (hok : elfLoadOne e env box h elf base e.opts.pagesize mapOp = (some l, box', h')) :
    Image e env elf mapOp base ⟨box, h⟩ l ⟨box', h'⟩ ∧
      l.last = highest (segsAt (env.bti elf) base elf.phdrs) ∧
      l.entry = add64 base elf.ehdr.e_entry := by
  have hmin := hb.lt_min
  by_cases hbase : base = 0
  · subst hbase
    obtain ⟨himage, hcases⟩ := image_numbers_zero hb.toWorks hb.isAlign (by omega) hok
    have hvalid := (himage.took hb.toWorks hb.isAlign hdvd).valid
    have hnil := segsAt_zero_eq_nil hb himage.valid hvalid
    rcases hcases with ⟨-, hlast, hentry⟩ | ⟨s₁, rest, hcons, -⟩
    · have hsmall := himage.header.entry_lt
      have hcode : CODE_MAX < 2 ^ 64 := by decide
      refine ⟨himage, by rw [hlast, hnil, highest_nil], ?_⟩
      rw [hentry, add64_eq (by omega), Nat.zero_add]
    · rw [hnil] at hcons
      cases hcons
  · obtain ⟨himage, -, hlast, hentry⟩ :=
      image_numbers hb.toWorks hb.isAlign (by omega) hdvd hbase hok
    exact ⟨himage, hlast, hentry⟩

theorem elfLoad_ok (hb : InSpace e r box)
    (hok : elfLoad e env box h prog interp mapOp = (some info, box', h')) :
    ∃ l st₁, Image e env prog mapOp box.min ⟨box, h⟩ l st₁ ∧
      info.elfbase = lowest (progSegs env box prog) ∧
      info.elfentry = add64 box.min prog.ehdr.e_entry ∧
      info.lastva = imageEnd env box prog interp ∧
      (interp = none ∧ st₁ = ⟨box', h'⟩ ∨
        ∃ i li, interp = some i ∧
          Image e env i mapOp (highest (progSegs env box prog)) st₁ li ⟨box', h'⟩ ∧
          info.ldentry = add64 (highest (progSegs env box prog)) i.ehdr.e_entry) := by
  have hmin := hb.lt_min
  have hne : box.min ≠ 0 := by omega
  simp only [elfLoad] at hok
  generalize hu : elfLoadOne e env box h prog box.min e.opts.pagesize mapOp = u at hok
  obtain ⟨res, box₁, h₁⟩ := u
  cases res with
  | none => cases (Prod.mk.inj hok).1
  | some l =>
      obtain ⟨himage, hfirst, hlast, hentry⟩ :=
        image_numbers hb.toWorks hb.isAlign (by omega) hb.dvd_min hne hu
      cases interp with
      | none =>
          obtain ⟨hinfo, hstate⟩ := Prod.mk.inj hok
          obtain rfl := Option.some.inj hinfo
          obtain ⟨rfl, rfl⟩ := Prod.mk.inj hstate
          exact ⟨l, _, himage, hfirst, hentry, hlast, .inl ⟨rfl, rfl⟩⟩
      | some i =>
          dsimp only at hok
          generalize hw : elfLoadOne e env box₁ h₁ i l.last e.opts.pagesize mapOp = w at hok
          obtain ⟨res, box₂, h₂⟩ := w
          cases res with
          | none => cases (Prod.mk.inj hok).1
          | some li =>
              obtain ⟨hinfo, hstate⟩ := Prod.mk.inj hok
              obtain rfl := Option.some.inj hinfo
              obtain ⟨rfl, rfl⟩ := Prod.mk.inj hstate
              have htook := himage.took hb.toWorks hb.isAlign hb.dvd_min
              have hdvd := dvd_highest (himage.fits hb.isAlign hb.dvd_min) htook.valid hb.region.lt
              rw [hlast] at hw
              obtain ⟨himage', hlast', hentry'⟩ := image_at (hb.after htook) hdvd hw
              exact ⟨l, _, himage, hfirst, hentry, hlast', .inr ⟨i, li, rfl, himage', hentry'⟩⟩

/-! `proc_load`. -/

/-- Loading the symbols does not touch the image. -/
theorem Loadsyms.frame {res : Bool × LFILinuxProc} (hr : Loadsyms proc elf a res) :
    res.2.box = proc.box ∧ res.2.host = proc.host ∧ res.2.elfinfo = proc.elfinfo ∧
      res.2.entry = proc.entry := by
  cases hr with
  | malformed h => exact ⟨rfl, rfl, rfl, rfl⟩
  | noSym h hnone => exact ⟨rfl, rfl, rfl, rfl⟩
  | noStr h halloc hp => exact ⟨rfl, rfl, rfl, rfl⟩
  | loaded h halloc hsym hstr hsyms hstrs hbase hentry hbox hhost =>
      exact ⟨hbox, hhost, hbase, hentry⟩

/-- The process when `elf_load` has returned. -/
def withImage (proc : LFILinuxProc) (interp : Option Buf) (info : ELFLoadInfo) (st : State) :
    LFILinuxProc :=
  { proc with
    box := st.box
    host := st.host
    entry := if interp.isSome then info.ldentry else info.elfentry
    elfinfo := info }

theorem procLoad_steps (hok : procLoad e env o proc prog interp mapOp a = (true, proc')) :
    ∃ info st res, elfLoad e env proc.box proc.host prog interp mapOp = (some info, st.box, st.host) ∧
      Loadsyms (withImage proc interp info st) prog a res ∧ reserveBrk e o res.2 = (true, proc') := by
  simp only [procLoad] at hok
  generalize elfLoad e env proc.box proc.host prog interp mapOp = u at hok
  obtain ⟨info, box', h'⟩ := u
  cases info with
  | none => cases (Prod.mk.inj hok).1
  | some info =>
      obtain ⟨res, hres, hsyms⟩ :=
        elfLoadsyms_cases (withImage proc interp info ⟨box', h'⟩) prog a
      refine ⟨info, ⟨box', h'⟩, res, rfl, hsyms, ?_⟩
      dsimp only at hok
      rw [← hok]
      change _ = reserveBrk e o
        ((elfLoadsyms (withImage proc interp info ⟨box', h'⟩) prog a).getD _).2
      rw [hres, Option.getD_some]

/-- The region of the break has been reserved, if it has a size. -/
structure BrkReserved (e : Engine) (r : Region) (o : LFILinuxOptions) (lastva : Nat)
    (st st' : State) : Prop where
  empty : o.brkmaxsize = 0 → st'.box = st.box ∧ st'.host = st.host
  valid : 0 < o.brkmaxsize → lfiBoxBufvalid st.box lastva o.brkmaxsize = true ∧
    e.opts.pagesize ∣ lastva
  only : 0 < o.brkmaxsize → Only e r lastva o.brkmaxsize st.box st.host st'.box st'.host
  shows : 0 < o.brkmaxsize → ∀ a, InSpan e.opts.pagesize lastva o.brkmaxsize (a / e.opts.pagesize) →
    Shows e st'.box st'.host a 0 LFI_PROT_NONE ⟨LFI_PROT_NONE, MAP_FLAGS, -1, 0⟩

theorem reserveBrk_ok (hw : Works e r proc.box) (hok : reserveBrk e o proc = (true, proc')) :
    proc'.brkbase = proc.elfinfo.lastva ∧ proc'.elfinfo = proc.elfinfo ∧
      BrkReserved e r o proc.elfinfo.lastva ⟨proc.box, proc.host⟩ ⟨proc'.box, proc'.host⟩ := by
  rw [reserveBrk] at hok
  split at hok
  · rename_i hpos
    obtain ⟨hsome, rfl⟩ := Prod.mk.inj hok
    dsimp only at hsome hpos ⊢
    have hne : ¬o.brkmaxsize = 0 := by omega
    rcases @mapat_private e r proc.box LFI_PROT_NONE MAP_FLAGS (-1) 0 hw proc.host
        proc.elfinfo.lastva o.brkmaxsize (by decide) with
      heq | ⟨hbuf, hacc, honly, hnone | ⟨-, -, src, hsrc, hshow⟩⟩
    · rw [heq] at hsome
      cases hsome
    · rw [hnone] at hsome
      cases hsome
    · obtain rfl := Option.some.inj ((hostSource_anon e.opts.pagesize (-1) 0).symm.trans hsrc)
      exact ⟨rfl, rfl, fun hzero => absurd hzero hne, fun _ => ⟨hbuf, hw.region.pagesize ▸ hacc.1⟩,
        fun _ => honly, fun _ => hshow⟩
  · rename_i hzero
    obtain ⟨-, rfl⟩ := Prod.mk.inj hok
    exact ⟨rfl, rfl, fun _ => ⟨rfl, rfl⟩, fun hpos => absurd hpos hzero,
      fun hpos => absurd hpos hzero, fun hpos => absurd hpos hzero⟩

/-- What there is after `proc_load`: the program, its interpreter, and the break above
both. -/
structure Loaded (e : Engine) (r : Region) (env : LoadEnv) (o : LFILinuxOptions) (mapOp : MapOp)
    (proc : LFILinuxProc) (prog : Buf) (interp : Option Buf) (l : LoadedElf) (st₁ st₂ : State)
    (proc' : LFILinuxProc) : Prop where
  image : Image e env prog mapOp proc.box.min ⟨proc.box, proc.host⟩ l st₁
  interpImage : interp = none ∧ st₁ = st₂ ∨
    ∃ i li, interp = some i ∧
      Image e env i mapOp (highest (progSegs env proc.box prog)) st₁ li st₂ ∧
      proc'.elfinfo.ldentry = add64 (highest (progSegs env proc.box prog)) i.ehdr.e_entry
  elfbase : proc'.elfinfo.elfbase = lowest (progSegs env proc.box prog)
  elfentry : proc'.elfinfo.elfentry = add64 proc.box.min prog.ehdr.e_entry
  brkbase : proc'.brkbase = imageEnd env proc.box prog interp
  brk : BrkReserved e r o (imageEnd env proc.box prog interp) st₂ ⟨proc'.box, proc'.host⟩

theorem AllTook.append {segs segs' : List SegArgs} {st'' : State} (htook : AllTook e r segs st st')
    (htook' : AllTook e r segs' st' st'') : AllTook e r (segs ++ segs') st st'' := by
  obtain ⟨mm, hmm⟩ := htook.box_eq
  obtain ⟨mm', hmm'⟩ := htook'.box_eq
  have hvalid := htook'.valid
  rw [hmm] at hmm' hvalid
  refine ⟨⟨mm', hmm'⟩, htook'.works, ?_, ?_, ?_⟩
  · intro s hs
    exact (List.mem_append.mp hs).elim (htook.valid s) (hvalid s)
  · intro a ha
    rw [htook'.kept a fun s hs => ha s (List.mem_append_right _ hs)]
    exact htook.kept a fun s hs => ha s (List.mem_append_left _ hs)
  · intro s hs a ha
    by_cases hlater : ∃ t ∈ segs', t.covers a = true
    · obtain ⟨t, ht, hcovers⟩ := hlater
      exact htook'.mapped t ht a hcovers
    · push Not at hlater
      have hentry := congrArg (·.entry.isSome) (htook'.kept a fun t ht => by simpa using hlater t ht)
      rcases List.mem_append.mp hs with hs | hs
      · exact hentry.trans (htook.mapped s hs a ha)
      · exact absurd ha (hlater s hs)

theorem procLoad_loaded (hb : InSpace e r proc.box)
    (hok : procLoad e env o proc prog interp mapOp a = (true, proc')) :
    ∃ l st₁ st₂, Loaded e r env o mapOp proc prog interp l st₁ st₂ proc' := by
  obtain ⟨info, st, res, hload, hsyms, hbrk⟩ := procLoad_steps hok
  obtain ⟨l, st₁, himage, hfirst, hentry, hlast, hinterp⟩ := elfLoad_ok hb hload
  obtain ⟨hbox, hhost, hinfo, -⟩ := hsyms.frame
  have hworks : Works e r st.box := by
    have htook := himage.took hb.toWorks hb.isAlign hb.dvd_min
    rcases hinterp with ⟨-, rfl⟩ | ⟨i, li, -, himage', -⟩
    · exact htook.works
    · have hdvd := dvd_highest (himage.fits hb.isAlign hb.dvd_min) htook.valid hb.region.lt
      exact (himage'.took htook.works hb.isAlign hdvd).works
  change res.2.box = st.box at hbox
  change res.2.host = st.host at hhost
  change res.2.elfinfo = info at hinfo
  obtain ⟨hbase, hinfo', hreserved⟩ := reserveBrk_ok (hbox ▸ hworks) hbrk
  rw [hinfo] at hbase hinfo' hreserved
  rw [hbox, hhost, hlast] at hreserved
  refine ⟨l, st₁, st, himage, ?_, by rw [hinfo', hfirst], by rw [hinfo', hentry],
    by rw [hbase, hlast], hreserved⟩
  rcases hinterp with ⟨hnone, heq⟩ | ⟨i, li, hsome, himage', hldentry⟩
  · exact .inl ⟨hnone, heq⟩
  · exact .inr ⟨i, li, hsome, himage', by rw [hinfo', hldentry]⟩

namespace Loaded

variable {l : LoadedElf} {st₁ st₂ : State}
  (hl : Loaded e r env o mapOp proc prog interp l st₁ st₂ proc')
  (hb : InSpace e r proc.box)

include hl hb

theorem took_prog : AllTook e r (progSegs env proc.box prog) ⟨proc.box, proc.host⟩ st₁ :=
  hl.image.took hb.toWorks hb.isAlign hb.dvd_min

theorem dvd_progEnd : e.opts.pagesize ∣ highest (progSegs env proc.box prog) :=
  dvd_highest (hl.image.fits hb.isAlign hb.dvd_min) (hl.took_prog hb).valid hb.region.lt

theorem took_interp : AllTook e r (interpSegs env proc.box prog interp) st₁ st₂ := by
  have hworks := (hl.took_prog hb).works
  rcases hl.interpImage with ⟨rfl, rfl⟩ | ⟨i, li, rfl, himage, -⟩
  · exact ⟨⟨st₁.box.mm, rfl⟩, hworks, by simp [interpSegs], fun _ _ => rfl, by simp [interpSegs]⟩
  · exact himage.took hworks hb.isAlign (hl.dvd_progEnd hb)

theorem fits_interp : ∀ s ∈ interpSegs env proc.box prog interp, s.Fits e.opts.pagesize := by
  rcases hl.interpImage with ⟨rfl, rfl⟩ | ⟨i, li, rfl, himage, -⟩
  · simp [interpSegs]
  · exact himage.fits hb.isAlign (hl.dvd_progEnd hb)

/-- Both images are in the box. -/
theorem took : AllTook e r (progSegs env proc.box prog ++ interpSegs env proc.box prog interp)
    ⟨proc.box, proc.host⟩ st₂ :=
  (hl.took_prog hb).append (hl.took_interp hb)

end Loaded

/-! Whatever the outcome, nothing outside of the box changes. -/

/-- The box changes only within itself. -/
def InBox (e : Engine) (r : Region) (st st' : State) : Prop :=
  Only e r st.box.min (st.box.max - st.box.min) st.box st.host st'.box st'.host

theorem InBox.trans {st'' : State} (h : InBox e r st st') (h' : InBox e r st' st'') :
    InBox e r st st'' := by
  obtain ⟨mm, hmm⟩ := h.box_eq
  have hmin : st'.box.min = st.box.min := by rw [hmm]
  have hmax : st'.box.max = st.box.max := by rw [hmm]
  rw [InBox, hmin, hmax] at h'
  exact Only.trans h h'

theorem inBox_elfLoad (hb : InSpace e r box) :
    let u := elfLoad e env box h prog interp .elfMap
    InBox e r ⟨box, h⟩ ⟨u.2.1, u.2.2⟩ := by
  intro u
  have hfirst : InBox e r ⟨box, h⟩ ⟨(elfLoadOne e env box h prog box.min e.opts.pagesize .elfMap).2.1,
      (elfLoadOne e env box h prog box.min e.opts.pagesize .elfMap).2.2⟩ :=
    only_elfLoadOne hb.isAlign hb.toWorks hb.dvd_min
  have hmin := hb.lt_min
  simp only [u, elfLoad]
  generalize hw : elfLoadOne e env box h prog box.min e.opts.pagesize .elfMap = w at hfirst ⊢
  obtain ⟨res, box₁, h₁⟩ := w
  cases res with
  | none => exact hfirst
  | some l =>
      cases interp with
      | none => exact hfirst
      | some i =>
          obtain ⟨himage, -, hlast, -⟩ :=
            image_numbers hb.toWorks hb.isAlign (by omega) hb.dvd_min (by omega) hw
          have htook := himage.took hb.toWorks hb.isAlign hb.dvd_min
          have hdvd := dvd_highest (himage.fits hb.isAlign hb.dvd_min) htook.valid hb.region.lt
          rw [← hlast] at hdvd
          have hsecond : InBox e r ⟨box₁, h₁⟩
              ⟨(elfLoadOne e env box₁ h₁ i l.last e.opts.pagesize .elfMap).2.1,
                (elfLoadOne e env box₁ h₁ i l.last e.opts.pagesize .elfMap).2.2⟩ :=
            only_elfLoadOne hb.isAlign htook.works hdvd
          dsimp only
          generalize elfLoadOne e env box₁ h₁ i l.last e.opts.pagesize .elfMap = v at hsecond ⊢
          obtain ⟨res, box₂, h₂⟩ := v
          cases res with
          | none => exact hfirst.trans hsecond
          | some li => exact hfirst.trans hsecond

theorem inBox_reserveBrk (hw : Works e r proc.box) :
    InBox e r ⟨proc.box, proc.host⟩
      ⟨(reserveBrk e o proc).2.box, (reserveBrk e o proc).2.host⟩ := by
  rw [reserveBrk]
  split
  · rcases mapat_cases hw proc.host proc.elfinfo.lastva o.brkmaxsize LFI_PROT_NONE MAP_FLAGS (-1) 0
      with ⟨heq, -⟩ | ⟨hbuf, hacc, hcases⟩
    · simp only [lfiBoxMapat, heq]
      exact .refl hw _ _ _
    · have hmap := only_mapat hw proc.host proc.elfinfo.lastva o.brkmaxsize LFI_PROT_NONE MAP_FLAGS
        (-1) 0
      exact hmap.mono fun p hp => inSpan_box hbuf hp
  · exact .refl hw _ _ _

theorem inBox_procLoad (hb : InSpace e r proc.box) :
    let u := procLoad e env o proc prog interp .elfMap a
    InBox e r ⟨proc.box, proc.host⟩ ⟨u.2.box, u.2.host⟩ := by
  intro u
  have hload := @inBox_elfLoad _ env _ _ proc.host prog interp hb
  simp only [u, procLoad]
  generalize elfLoad e env proc.box proc.host prog interp .elfMap = w at hload ⊢
  obtain ⟨info, box', h'⟩ := w
  cases info with
  | none => exact hload
  | some info =>
      obtain ⟨res, hres, hsyms⟩ :=
        elfLoadsyms_cases (withImage proc interp info ⟨box', h'⟩) prog a
      obtain ⟨hbox, hhost, -, -⟩ := hsyms.frame
      refine hload.trans ?_
      change InBox e r ⟨box', h'⟩ ⟨(reserveBrk e o ((elfLoadsyms (withImage proc interp info ⟨box', h'⟩)
        prog a).getD _).2).2.box, (reserveBrk e o ((elfLoadsyms (withImage proc interp info
          ⟨box', h'⟩) prog a).getD _).2).2.host⟩
      rw [hres, Option.getD_some]
      have hbrk := @inBox_reserveBrk e o r res.2
        (by rw [hbox]; exact hload.works)
      rw [hbox, hhost] at hbrk
      exact hbrk

/-! Files of program headers. -/

def phdrBytes (flags offset vaddr filesz memsz : Nat) : Bytes :=
  leBytes 4 PT_LOAD ++ leBytes 4 flags ++ leBytes 8 offset ++ leBytes 8 vaddr ++ leBytes 8 vaddr ++
    leBytes 8 filesz ++ leBytes 8 memsz ++ leBytes 8 4096

/-- A header with `n` program headers behind it. -/
def ehdrBytes (entry n shoff shnum : Nat) : Bytes :=
  ELFMAG ++ [ELFCLASS64] ++ zeros 11 ++ leBytes 2 ET_DYN ++ leBytes 2 62 ++ leBytes 4 EV_CURRENT ++
    leBytes 8 entry ++ leBytes 8 64 ++ leBytes 8 shoff ++ zeros 4 ++ leBytes 2 64 ++ leBytes 2 56 ++
    leBytes 2 n ++ leBytes 2 64 ++ leBytes 2 shnum ++ leBytes 2 0

/-- A host without BTI that has memory. -/
def richEnv : LoadEnv := ⟨4096, fun _ => false, fun _ => true⟩

theorem eq_of_fst {α : Type*} {x : Bool × α} (h : x.1 = true) : x = (true, x.2) := Prod.ext h rfl

theorem inSpace_newProc : ∃ r, InSpace nopEngine r newProc.box :=
  inSpace_new placed_nopEngine (by decide) (by decide) lfiBoxNew_nopEngine

end LfiRuntime.Elf
