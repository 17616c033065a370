import LfiRuntime.Lib.Layers
import LfiRuntime.Lib.Runs
import LfiRuntime.Linux.ElfSegment

/-!
The loop over the program headers: which segments are loaded, where they are put, and
what the box holds afterwards.
-/

namespace LfiRuntime.Elf

open LfiRuntime.Align
open LfiRuntime.Box
open LfiRuntime.ByteString
open LfiRuntime.Config
open LfiRuntime.HostCalls
open LfiRuntime.Layers
open LfiRuntime.Mmap
open LfiRuntime.PagedMemory
open LfiRuntime.Runs

namespace Phdr

/-- The header names a segment that is loaded. -/
def Loads (p : Phdr) : Prop := p.p_type = PT_LOAD ∧ p.p_memsz ≠ 0

instance (p : Phdr) : Decidable p.Loads := inferInstanceAs (Decidable (_ ∧ _))

/-- The range of the segment, before the image is placed. -/
def start (p : Phdr) : Nat := p.p_vaddr - p.p_vaddr % p.p_align

def stop (p : Phdr) : Nat := (p.p_vaddr + p.p_memsz + p.p_align - 1) / p.p_align * p.p_align

/-- The checks of `elf_load_one` on a segment. -/
structure Valid (ps : Nat) (p : Phdr) : Prop where
  isAlign : IsAlign p.p_align
  dvd : ps ∣ p.p_align
  filesz_le : p.p_filesz ≤ p.p_memsz
  stop_lt : p.stop < CODE_MAX

/-- The fields are numbers of 64 bits. -/
structure InRange (p : Phdr) : Prop where
  offset : p.p_offset < 2 ^ 64
  vaddr : p.p_vaddr < 2 ^ 64
  memsz : p.p_memsz < 2 ^ 64
  align : p.p_align < 2 ^ 64

/-- The segment with its image at `base`. -/
def seg (bti : Bool) (base : Nat) (p : Phdr) : SegArgs :=
  ⟨add64 base p.start, p.p_vaddr - p.start, add64 base p.stop, p.p_offset, p.p_filesz, p.p_memsz,
    pflags p.p_flags bti, p.p_align⟩

variable {ps base : Nat} {bti : Bool} {p : Phdr}

theorem start_le (p : Phdr) : p.start ≤ p.p_vaddr := Nat.sub_le _ _

theorem dvd_start (p : Phdr) : p.p_align ∣ p.start := Nat.dvd_sub_mod _

theorem dvd_stop (p : Phdr) : p.p_align ∣ p.stop := Nat.dvd_mul_left _ _

theorem inRange_ofBytes (bs : Bytes) : (Phdr.ofBytes bs).InRange := by
  have hfield : ∀ off, field bs off 8 < 2 ^ 64 := fun off => field_lt bs off 8
  exact ⟨hfield _, hfield _, hfield _, hfield _⟩

theorem inRange_of_mem {bs : Bytes} {n : Nat} (hp : p ∈ phdrsOf bs n) : p.InRange := by
  obtain ⟨i, -, rfl⟩ := List.mem_map.mp hp
  exact inRange_ofBytes _

namespace Valid

variable (hv : p.Valid ps) (hl : p.Loads)

include hv

theorem end_le : p.p_vaddr + p.p_memsz ≤ p.stop := by
  have hpos := hv.isAlign.pos
  have hmod := Nat.div_add_mod' (p.p_vaddr + p.p_memsz + p.p_align - 1) p.p_align
  have hlt := Nat.mod_lt (p.p_vaddr + p.p_memsz + p.p_align - 1) hpos
  rw [stop]
  omega

include hl

theorem start_lt : p.start < p.stop := by
  have hend := hv.end_le
  have hle := p.start_le
  have hpos := Nat.pos_of_ne_zero hl.2
  omega

theorem align_le : p.p_align ≤ p.stop :=
  Nat.le_of_dvd ((Nat.zero_le _).trans_lt (hv.start_lt hl)) p.dvd_stop

/-- The size of the range does not depend on where the image is. -/
theorem size_seg (bti : Bool) (base : Nat) : (p.seg bti base).size = p.stop - p.start := by
  have hlt := hv.start_lt hl
  have hmax := hv.stop_lt
  have hcode : CODE_MAX < 2 ^ 64 := by decide
  rw [SegArgs.size, sub64]
  simp only [seg, add64]
  omega

theorem fits_seg (hps : IsAlign ps) (hbase : ps ∣ base) (bti : Bool) : (p.seg bti base).Fits ps := by
  have hlt := hv.start_lt hl
  have hend := hv.end_le
  have hle := p.start_le
  have hadd : ∀ x, p.p_align ∣ x → ps ∣ add64 base x := fun x hx =>
    (Nat.dvd_mod_iff hps.dvd).mpr (dvd_add hbase (hv.dvd.trans hx))
  have hadd_lt : ∀ x, add64 base x < 2 ^ 64 := fun x => Nat.mod_lt _ (Nat.two_pow_pos 64)
  refine ⟨hps, hadd _ p.dvd_start, ?_, ?_, hadd_lt _, hadd_lt _, ?_, hv.filesz_le⟩
  · rw [hv.size_seg hl]
    exact hv.dvd.trans (Nat.dvd_sub p.dvd_stop p.dvd_start)
  · rw [hv.size_seg hl]
    omega
  · rw [hv.size_seg hl]
    simp only [seg]
    omega

end Valid

/-- The loader makes the checks with the addresses that it has rounded. -/
theorem truncp_eq_start (hr : p.InRange) (halign : IsAlign p.p_align) :
    truncp p.p_vaddr p.p_align = p.start := truncp_eq halign hr.vaddr

theorem Valid.ceilp_eq (hv : p.Valid ps) (hl : p.Loads) :
    ceilp (p.p_vaddr + p.p_memsz) p.p_align = p.stop := by
  have hend := hv.end_le
  have hle := hv.align_le hl
  have hmax := hv.stop_lt
  have hcode : CODE_MAX + CODE_MAX < 2 ^ 64 := by decide
  exact ceilp_of_lt hv.isAlign (by omega)

/-- Where the rounded end is in bounds, nothing has wrapped. -/
theorem stop_eq_ceilp (halign : IsAlign p.p_align) (hsum : p.p_vaddr + p.p_memsz < 2 ^ 64)
    (hpos : 0 < ceilp (p.p_vaddr + p.p_memsz) p.p_align) :
    ceilp (p.p_vaddr + p.p_memsz) p.p_align = p.stop := by
  have hone := halign.pos
  rcases Nat.lt_or_ge (p.p_vaddr + p.p_memsz + (p.p_align - 1)) (2 ^ 64) with hlt | hge
  · exact ceilp_of_lt halign (by omega)
  · rw [ceilp_of_ge halign hsum hge] at hpos
    exact absurd hpos (lt_irrefl 0)

end Phdr

/-! The loop. -/

section

variable {e : Engine} {env : LoadEnv} {elf : Buf} {mapOp : MapOp} {elfbase : Nat} {p : Phdr}
  {phdrs : List Phdr} {s s' : LoadState} {st : State}

/-- The variables of the loop after the segment `p`. -/
def LoadState.after (elfbase : Nat) (p : Phdr) (s : LoadState) (box : LFIBox) (h : Host) :
    LoadState :=
  let base := if s.base = 0 then add64 s.base p.start else s.base
  ⟨box, h, base,
    if s.first = 0 ∨ add64 elfbase p.start < s.first then add64 elfbase p.start else s.first,
    if add64 base p.stop > s.last then add64 base p.stop else s.last⟩

/-- One round of the loop. -/
theorem loadSegments_cons (hr : p.InRange) (s : LoadState) :
    let load :=
      bufReadElfseg e env s.box s.host (p.seg (env.bti elf) s.base) elf e.opts.pagesize mapOp
    let run := loadSegments e env elf e.opts.pagesize mapOp elfbase
    ¬p.Loads ∧ run (p :: phdrs) s = run phdrs s ∨
      p.Loads ∧ ¬p.Valid e.opts.pagesize ∧ run (p :: phdrs) s = (false, s) ∨
      p.Loads ∧ p.Valid e.opts.pagesize ∧
        run (p :: phdrs) s =
          if load.1 = true then run phdrs (s.after elfbase p load.2.1 load.2.2)
          else (false, { s with box := load.2.1, host := load.2.2 }) := by
  intro load run
  simp only [run, loadSegments]
  split
  · rename_i hskip
    refine .inl ⟨fun hl => ?_, rfl⟩
    exact hskip.elim (fun h => h hl.1) fun h => hl.2 h
  rename_i hskip
  have hl : p.Loads := by
    rw [not_or, not_not] at hskip
    exact hskip
  right
  split
  · rename_i hbad
    refine .inl ⟨hl, fun hv => ?_, rfl⟩
    rcases hbad with h | h | h
    · exact hv.isAlign.pos.ne' h
    · exact h hv.isAlign.mask
    · exact h (Nat.mod_eq_zero_of_dvd hv.dvd)
  rename_i hgood
  rw [not_or, not_or, not_not, not_not] at hgood
  have halign := isAlign_of_mask hgood.1 hr.align hgood.2.1
  have hmax := hr.memsz
  have hvaddr := hr.vaddr
  have hcode : CODE_MAX < 2 ^ 64 := by decide
  split
  · rename_i hwrap
    refine .inl ⟨hl, fun hv => ?_, rfl⟩
    have hend := hv.end_le
    have hstop := hv.stop_lt
    omega
  rename_i hsum
  rw [p.truncp_eq_start hr halign]
  split
  · rename_i hbig
    exact .inl ⟨hl, fun hv => absurd hv.filesz_le (not_le.mpr hbig), rfl⟩
  rename_i hfile
  split
  · rename_i hbounds
    refine .inl ⟨hl, fun hv => ?_, rfl⟩
    have hlt := hv.start_lt hl
    have hstop := hv.stop_lt
    rw [hv.ceilp_eq hl] at hbounds
    omega
  rename_i hbounds
  have hceil := p.stop_eq_ceilp halign (by omega) (by omega)
  rw [hceil] at hbounds ⊢
  have hv : p.Valid e.opts.pagesize :=
    ⟨halign, Nat.dvd_of_mod_eq_zero hgood.2.2, by omega, by omega⟩
  have hoff : sub64 p.p_vaddr p.start = p.p_vaddr - p.start := sub64_eq p.start_le hvaddr
  rw [hoff]
  refine .inr ⟨hl, hv, ?_⟩
  change (if (!load.1) = true then (false, { s with box := load.2.1, host := load.2.2 }) else _) = _
  cases load.1 with
  | true => rfl
  | false => rfl

/-- The base that the loop goes on with. -/
def nextBase (base : Nat) (p : Phdr) : Nat := if base = 0 then add64 base p.start else base

/-- The segments of an image at `base`, in the order in which they are loaded. -/
def segsAt (bti : Bool) : Nat → List Phdr → List SegArgs
  | _, [] => []
  | base, p :: phdrs =>
    if p.Loads then p.seg bti base :: segsAt bti (nextBase base p) phdrs else segsAt bti base phdrs

/-- A segment is loaded. -/
def SegStep (e : Engine) (env : LoadEnv) (elf : Buf) (mapOp : MapOp) (st : State) (seg : SegArgs)
    (st' : State) : Prop :=
  bufReadElfseg e env st.box st.host seg elf e.opts.pagesize mapOp = (true, st'.box, st'.host)

def LoadState.state (s : LoadState) : State := ⟨s.box, s.host⟩

/-- The loop succeeds exactly if every segment passes the checks and is loaded. -/
theorem loadSegments_iff (hr : ∀ p ∈ phdrs, p.InRange) :
    (∃ s', loadSegments e env elf e.opts.pagesize mapOp elfbase phdrs s = (true, s') ∧
        s'.state = st) ↔
      (∀ p ∈ phdrs, p.Loads → p.Valid e.opts.pagesize) ∧
        Trace (SegStep e env elf mapOp) s.state (segsAt (env.bti elf) s.base phdrs) st := by
  induction phdrs generalizing s with
  | nil =>
      simp only [loadSegments, segsAt, trace_nil_iff, List.not_mem_nil, false_implies, implies_true,
        true_and]
      constructor
      · rintro ⟨s', heq, rfl⟩
        rw [(Prod.mk.inj heq).2]
      · exact fun heq => ⟨s, rfl, heq⟩
  | cons p phdrs ih =>
      have hrest : ∀ p ∈ phdrs, p.InRange := fun q hq => hr q (List.mem_cons_of_mem _ hq)
      rw [segsAt, List.forall_mem_cons]
      rcases @loadSegments_cons e env elf mapOp elfbase p phdrs (hr p List.mem_cons_self)
        s with
        ⟨hl, heq⟩ | ⟨hl, hv, heq⟩ | ⟨hl, hv, heq⟩
      · rw [heq, if_neg hl, ih hrest]
        simp only [hl, false_implies, true_and]
      · rw [heq]
        refine iff_of_false ?_ fun hand => hv (hand.1.1 hl)
        rintro ⟨s', hfail, -⟩
        cases (Prod.mk.inj hfail).1
      · rw [heq, if_pos hl, trace_cons_iff]
        simp only [hl, hv, implies_true, true_and]
        split
        · rename_i hok
          rw [ih hrest]
          refine and_congr_right fun _ => ⟨fun htrace => ⟨_, Prod.ext hok rfl, htrace⟩, ?_⟩
          rintro ⟨t, hstep, htrace⟩
          have hload : bufReadElfseg e env s.box s.host (p.seg (env.bti elf) s.base) elf
              e.opts.pagesize mapOp = (true, t.box, t.host) := hstep
          rw [hload]
          exact htrace
        · rename_i hfail
          refine iff_of_false ?_ ?_
          · rintro ⟨s', hsome, -⟩
            cases (Prod.mk.inj hsome).1
          · rintro ⟨-, t, hstep, -⟩
            exact hfail (Prod.mk.inj hstep).1

/-! Where the segments are. -/

theorem dvd_nextBase {ps base : Nat} (hps : IsAlign ps) (hbase : ps ∣ base) (hv : p.Valid ps) :
    ps ∣ nextBase base p := by
  rw [nextBase]
  split
  · exact (Nat.dvd_mod_iff hps.dvd).mpr (dvd_add hbase (hv.dvd.trans p.dvd_start))
  · exact hbase

/-- A segment that is loaded comes from a header. -/
theorem exists_phdr_of_mem {ps base : Nat} {bti : Bool} {seg : SegArgs} (hps : IsAlign ps)
    (hbase : ps ∣ base) (hv : ∀ p ∈ phdrs, p.Loads → p.Valid ps)
    (hseg : seg ∈ segsAt bti base phdrs) :
    ∃ p ∈ phdrs, p.Loads ∧ ∃ base', ps ∣ base' ∧ seg = p.seg bti base' := by
  induction phdrs generalizing base with
  | nil => cases hseg
  | cons p phdrs ih =>
      have hrest : ∀ q ∈ phdrs, q.Loads → q.Valid ps := fun q hq => hv q (List.mem_cons_of_mem _ hq)
      have hlift : (∃ q ∈ phdrs, q.Loads ∧ ∃ base', ps ∣ base' ∧ seg = q.seg bti base') →
          ∃ q ∈ p :: phdrs, q.Loads ∧ ∃ base', ps ∣ base' ∧ seg = q.seg bti base' := by
        rintro ⟨q, hq, hfrom⟩
        exact ⟨q, List.mem_cons_of_mem _ hq, hfrom⟩
      rw [segsAt] at hseg
      split at hseg
      · rename_i hl
        rcases List.mem_cons.mp hseg with rfl | hseg
        · exact ⟨p, List.mem_cons_self, hl, base, hbase, rfl⟩
        · exact hlift (ih (dvd_nextBase hps hbase (hv p List.mem_cons_self hl)) hrest hseg)
      · exact hlift (ih hbase hrest hseg)

theorem fits_of_mem {ps base : Nat} {bti : Bool} (hps : IsAlign ps) (hbase : ps ∣ base)
    (hv : ∀ p ∈ phdrs, p.Loads → p.Valid ps) : ∀ seg ∈ segsAt bti base phdrs, seg.Fits ps := by
  intro seg hseg
  obtain ⟨p, hp, hl, base', hbase', rfl⟩ := exists_phdr_of_mem hps hbase hv hseg
  exact (hv p hp hl).fits_seg hl hps hbase' bti

/-- Where there is a base, every segment is placed with it. -/
theorem segsAt_eq {base : Nat} {bti : Bool} (hbase : base ≠ 0) :
    segsAt bti base phdrs = (phdrs.filter (·.Loads)).map (·.seg bti base) := by
  induction phdrs with
  | nil => rfl
  | cons p phdrs ih =>
      rw [segsAt, nextBase, if_neg hbase, ih, List.filter_cons]
      by_cases hl : p.Loads <;> simp [hl]

/-! What the segments leave in the box. -/

variable {r : Region} {segs : List SegArgs} {st' : State}

/-- Each segment has been given its pages, and the others are as before. -/
structure AllTook (e : Engine) (r : Region) (segs : List SegArgs) (st st' : State) : Prop where
  box_eq : ∃ mm, st'.box = { st.box with mm := mm }
  works : Works e r st'.box
  valid : ∀ s ∈ segs, lfiBoxBufvalid st.box s.start s.size = true
  kept : ∀ a, (∀ s ∈ segs, s.covers a = false) →
    view e st'.box st'.host a = view e st.box st.host a
  mapped : ∀ s ∈ segs, ∀ a, s.covers a = true →
    (st'.box.mm.table (a / e.opts.pagesize)).isSome = true

theorem bufvalid_with_mm {box : LFIBox} (mm : AddrSpace) (addr size : Nat) :
    lfiBoxBufvalid { box with mm := mm } addr size = lfiBoxBufvalid box addr size := rfl

theorem allTook_of_trace (hw : Works e r st.box) (hfits : ∀ s ∈ segs, s.Fits e.opts.pagesize)
    (htrace : Trace (SegStep e env elf mapOp) st segs st') : AllTook e r segs st st' := by
  induction segs generalizing st with
  | nil =>
      obtain rfl := trace_nil_iff.mp htrace
      exact ⟨⟨st.box.mm, rfl⟩, hw, by simp, fun _ _ => rfl, by simp⟩
  | cons seg segs ih =>
      obtain ⟨t, hstep, hrest⟩ := trace_cons_iff.mp htrace
      have hs := hfits seg List.mem_cons_self
      have hload : bufReadElfseg e env st.box st.host seg elf e.opts.pagesize mapOp =
          (true, t.box, t.host) := hstep
      have htook := bufReadElfseg_took hw hs env st.host elf mapOp (by rw [hload])
      rw [hload] at htook
      obtain ⟨mm, hmm⟩ := htook.only.box_eq
      have hall := ih htook.only.works (fun s hs => hfits s (List.mem_cons_of_mem _ hs)) hrest
      obtain ⟨mm', hmm'⟩ := hall.box_eq
      have hvalid := hall.valid
      dsimp only at hmm
      rw [hmm] at hmm' hvalid
      refine ⟨⟨mm', hmm'⟩, hall.works, ?_, ?_, ?_⟩
      · rw [List.forall_mem_cons]
        exact ⟨htook.valid, hvalid⟩
      · intro a ha
        rw [List.forall_mem_cons] at ha
        rw [hall.kept a ha.2]
        refine view_of_only htook.only fun hin => ?_
        rw [hs.inSpan_iff.mp hin] at ha
        cases ha.1
      · rw [List.forall_mem_cons]
        refine ⟨fun a ha => ?_, hall.mapped⟩
        by_cases hlater : ∀ s ∈ segs, s.covers a = false
        · have hentry := congrArg (·.entry.isSome) (hall.kept a hlater)
          exact hentry.trans (htook.mapped a ha)
        · push Not at hlater
          obtain ⟨s, hsegs, hcovers⟩ := hlater
          exact hall.mapped s hsegs a (by simpa using hcovers)

/-- What an image leaves for `ELF_MAP`: at each address, what the last segment there has
loaded. -/
structure AllLoaded (e : Engine) (r : Region) (elf : Buf) (segs : List SegArgs) (st st' : State) :
    Prop where
  files : st'.host.mem.files = st.host.mem.files
  accepted : ∀ s ∈ segs, s.Accepted e elf
  view : ∀ a, view e st'.box st'.host a =
    ((top SegArgs.covers segs a).map (·.loaded e st.host.mem.files elf a)).getD
      (view e st.box st.host a)

theorem allLoaded_of_trace (hw : Works e r st.box) (hfits : ∀ s ∈ segs, s.Fits e.opts.pagesize)
    (htrace : Trace (SegStep e env elf .elfMap) st segs st') : AllLoaded e r elf segs st st' := by
  have hpaint : st'.host.mem.files = st.host.mem.files ∧ (∀ s ∈ segs, s.Accepted e elf) ∧
      Elf.view e st'.box st'.host =
        segs.foldl (paint SegArgs.covers (SegArgs.loaded e st.host.mem.files elf))
          (Elf.view e st.box st.host) := by
    induction segs generalizing st with
    | nil =>
        obtain rfl := trace_nil_iff.mp htrace
        exact ⟨rfl, by simp, rfl⟩
    | cons seg segs ih =>
        obtain ⟨t, hstep, hrest⟩ := trace_cons_iff.mp htrace
        have hs := hfits seg List.mem_cons_self
        have hload : bufReadElfseg e env st.box st.host seg elf e.opts.pagesize .elfMap =
            (true, t.box, t.host) := hstep
        rcases bufReadElfseg_cases hw hs env st.host elf with heq | ⟨-, honly, hok⟩
        · rw [hload] at heq
          cases (Prod.mk.inj heq).1
        rw [hload] at honly hok
        obtain ⟨haccepted, hview⟩ := hok rfl
        have hfiles : t.host.mem.files = st.host.mem.files := honly.files
        obtain ⟨hfiles', haccepted', hview'⟩ :=
          ih honly.works (fun s hs => hfits s (List.mem_cons_of_mem _ hs)) hrest
        refine ⟨hfiles'.trans hfiles, List.forall_mem_cons.mpr ⟨haccepted, haccepted'⟩, ?_⟩
        rw [hview', List.foldl_cons, hfiles]
        congr 1
        funext a
        rw [paint]
        split
        · rename_i ha
          exact hview a ha
        · rename_i ha
          exact view_of_only honly fun hin => ha (hs.inSpan_iff.mp hin)
  obtain ⟨hfiles, haccepted, hview⟩ := hpaint
  exact ⟨hfiles, haccepted, fun a => by rw [hview, foldl_paint]⟩

/-- A range of the box is within the box. -/
theorem inSpan_box {ps addr size p : Nat} {box : LFIBox} (hbuf : lfiBoxBufvalid box addr size = true)
    (hp : InSpan ps addr size p) : InSpan ps box.min (box.max - box.min) p := by
  simp only [lfiBoxBufvalid, Bool.and_eq_true, decide_eq_true_eq] at hbuf
  exact inSpan_mono (by omega) (by omega) hp

/-- Whether the loop succeeds or fails, it keeps to the box. -/
theorem only_loadSegments (hps : IsAlign e.opts.pagesize) (hw : Works e r s.box)
    (hr : ∀ p ∈ phdrs, p.InRange) (hbase : e.opts.pagesize ∣ s.base) :
    let u := loadSegments e env elf e.opts.pagesize .elfMap elfbase phdrs s
    Only e r s.box.min (s.box.max - s.box.min) s.box s.host u.2.box u.2.host := by
  induction phdrs generalizing s with
  | nil => exact .refl hw _ _ _
  | cons p phdrs ih =>
      have hrest : ∀ p ∈ phdrs, p.InRange := fun q hq => hr q (List.mem_cons_of_mem _ hq)
      intro u
      rcases @loadSegments_cons e env elf .elfMap elfbase p phdrs (hr p List.mem_cons_self)
        s with
        ⟨-, heq⟩ | ⟨-, -, heq⟩ | ⟨hl, hv, heq⟩
      · simp only [u, heq]
        exact ih hw hrest hbase
      · simp only [u, heq]
        exact .refl hw _ _ _
      · have hload : Only e r s.box.min (s.box.max - s.box.min) s.box s.host
            (bufReadElfseg e env s.box s.host (p.seg (env.bti elf) s.base) elf e.opts.pagesize
              .elfMap).2.1
            (bufReadElfseg e env s.box s.host (p.seg (env.bti elf) s.base) elf e.opts.pagesize
              .elfMap).2.2 := by
          rcases bufReadElfseg_cases hw (hv.fits_seg hl hps hbase (env.bti elf)) env s.host elf with
            heq | ⟨hbuf, honly, -⟩
          · rw [heq]
            exact .refl hw _ _ _
          · exact honly.mono fun p hp => inSpan_box hbuf hp
        simp only [u, heq]
        generalize bufReadElfseg e env s.box s.host _ elf e.opts.pagesize .elfMap = load at hload ⊢
        split
        · obtain ⟨mm, hmm⟩ := hload.box_eq
          have hafter := ih (s := s.after elfbase p load.2.1 load.2.2) hload.works hrest
            (dvd_nextBase hps hbase hv)
          have hmin : load.2.1.min = s.box.min := by rw [hmm]
          have hmax : load.2.1.max = s.box.max := by rw [hmm]
          refine hload.trans ?_
          rw [← hmin, ← hmax]
          exact hafter
        · exact hload

/-! The variables of the loop. -/

def firstOf (m x : Nat) : Nat := if m = 0 ∨ x < m then x else m

theorem loadSegments_numbers (hr : ∀ p ∈ phdrs, p.InRange) (hbase : s.base ≠ 0)
    (hok : loadSegments e env elf e.opts.pagesize mapOp elfbase phdrs s = (true, s')) :
    s'.base = s.base ∧
      s'.first = ((phdrs.filter (·.Loads)).map (add64 elfbase ·.start)).foldl firstOf s.first ∧
      s'.last = ((phdrs.filter (·.Loads)).map (add64 s.base ·.stop)).foldl max s.last := by
  induction phdrs generalizing s with
  | nil =>
      obtain rfl := (Prod.mk.inj hok).2
      exact ⟨rfl, rfl, rfl⟩
  | cons p phdrs ih =>
      have hrest : ∀ p ∈ phdrs, p.InRange := fun q hq => hr q (List.mem_cons_of_mem _ hq)
      rcases @loadSegments_cons e env elf mapOp elfbase p phdrs (hr p List.mem_cons_self)
        s with
        ⟨hl, heq⟩ | ⟨hl, hv, heq⟩ | ⟨hl, hv, heq⟩
      · rw [heq] at hok
        rw [List.filter_cons_of_neg (by simpa using hl)]
        exact ih hrest hbase hok
      · rw [heq] at hok
        cases (Prod.mk.inj hok).1
      · rw [heq] at hok
        generalize bufReadElfseg e env s.box s.host _ elf e.opts.pagesize mapOp = load at hok
        split at hok
        · have hnext : (s.after elfbase p load.2.1 load.2.2).base = s.base := if_neg hbase
          rw [List.filter_cons_of_pos (by simpa using hl)]
          obtain ⟨hbase', hfirst, hlast⟩ := ih hrest (by rwa [hnext]) hok
          rw [hnext] at hbase' hlast
          refine ⟨hbase', hfirst, ?_⟩
          rw [hlast, List.map_cons, List.foldl_cons]
          congr 1
          simp only [LoadState.after, if_neg hbase]
          rw [Nat.max_def]
          split_ifs <;> omega
        · cases (Prod.mk.inj hok).1

/-- Without a base, the first segment gives one, which is added to its end as well. -/
theorem loadSegments_numbers_zero (hr : ∀ p ∈ phdrs, p.InRange) (hbase : s.base = 0)
    (hlast : s.last = 0)
    (hok : loadSegments e env elf e.opts.pagesize mapOp elfbase phdrs s = (true, s')) :
    segsAt (env.bti elf) 0 phdrs = [] ∧ s'.base = 0 ∧ s'.last = 0 ∨
      ∃ s₁ rest, segsAt (env.bti elf) 0 phdrs = s₁ :: rest ∧
        (s₁.start ≠ 0 → s'.base = s₁.start ∧
          s'.last = (rest.map SegArgs.stop).foldl max (add64 s₁.start s₁.stop)) := by
  induction phdrs generalizing s with
  | nil =>
      obtain rfl := (Prod.mk.inj hok).2
      exact .inl ⟨rfl, hbase, hlast⟩
  | cons p phdrs ih =>
      have hrest : ∀ p ∈ phdrs, p.InRange := fun q hq => hr q (List.mem_cons_of_mem _ hq)
      rw [segsAt]
      rcases @loadSegments_cons e env elf mapOp elfbase p phdrs (hr p List.mem_cons_self)
        s with
        ⟨hl, heq⟩ | ⟨hl, hv, heq⟩ | ⟨hl, hv, heq⟩
      · rw [heq] at hok
        rw [if_neg hl]
        exact ih hrest hbase hlast hok
      · rw [heq] at hok
        cases (Prod.mk.inj hok).1
      · rw [heq] at hok
        rw [if_pos hl]
        generalize bufReadElfseg e env s.box s.host _ elf e.opts.pagesize mapOp = load at hok
        split at hok
        · refine .inr ⟨_, _, rfl, fun hstart => ?_⟩
          have hfirst : (p.seg (env.bti elf) 0).start = nextBase 0 p := (if_pos rfl).symm
          have hnext : (s.after elfbase p load.2.1 load.2.2).base = nextBase 0 p := by
            rw [nextBase, if_pos rfl]
            simp only [LoadState.after, hbase, if_true]
          rw [hfirst] at hstart ⊢
          obtain ⟨hbase', -, hlast'⟩ := loadSegments_numbers hrest (hnext ▸ hstart) hok
          rw [hnext] at hbase' hlast'
          refine ⟨hbase', ?_⟩
          have hstop : (p.seg (env.bti elf) 0).stop = p.stop := by
            have hmax := hv.stop_lt
            have hcode : CODE_MAX < 2 ^ 64 := by decide
            exact (add64_eq (by omega)).trans (Nat.zero_add _)
          rw [hlast', segsAt_eq hstart, List.map_map, hstop]
          congr 1
          simp only [LoadState.after, hbase, hlast, if_true]
          rw [nextBase, if_pos rfl]
          split_ifs <;> omega
        · cases (Prod.mk.inj hok).1

theorem foldl_max_zero (l : List Nat) : l.foldl max 0 = l.max?.getD 0 := by
  cases l with
  | nil => rfl
  | cons x l => rw [List.foldl_cons, Nat.zero_max, List.max?_cons', Option.getD_some]

theorem foldl_firstOf {l : List Nat} (h : ∀ x ∈ l, x ≠ 0) : l.foldl firstOf 0 = l.min?.getD 0 := by
  cases l with
  | nil => rfl
  | cons x l =>
      rw [List.foldl_cons, firstOf, if_pos (.inl rfl), List.min?_cons', Option.getD_some]
      have hx := h x List.mem_cons_self
      replace h : ∀ y ∈ l, y ≠ 0 := fun y hy => h y (List.mem_cons_of_mem _ hy)
      induction l generalizing x with
      | nil => rfl
      | cons y l ih =>
          have hy := h y List.mem_cons_self
          have hmin : firstOf x y = min x y := by
            rw [firstOf, Nat.min_def]
            split_ifs <;> omega
          rw [List.foldl_cons, List.foldl_cons, hmin]
          exact ih (min x y) (by omega) fun z hz => h z (List.mem_cons_of_mem _ hz)

end

end LfiRuntime.Elf
