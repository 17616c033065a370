import LfiRuntime.Box.Protections

/-!
The two records of a box's memory: the table of the mapper and the page table
of the host, over runs of the memory operations.
-/

namespace LfiRuntime.Box

open LfiRuntime.PagedMemory
open LfiRuntime.Config
open LfiRuntime.HostCalls
open LfiRuntime.Mmap
open LfiRuntime.RangeMap
open LfiRuntime.Runs

/-- What `lfi_box_new` does with the space `[base, base + boxsize)`. -/
def lfiBoxNew (e : Engine) (base : Nat) (seed : UInt64) : Option LFIBox :=
  let pagesize := e.opts.pagesize
  let size := e.opts.boxsize
  let minOff :=
    if e.target.boxInternalGuard > pagesize then e.target.boxInternalGuard else pagesize
  let min := base + minOff
  let max := base + size - e.target.boxInternalGuard
  match AddrSpace.init min (max - min) pagesize with
  | none => none
  | some mm =>
      some ⟨base, size, min, max, if e.opts.noAslr then mm else mm.enableAslr seed, 0⟩

/-- The mappable range of the box is the region `r` of 64-bit addresses. -/
structure BoxRegion (e : Engine) (box : LFIBox) (r : Region) : Prop where
  pagesize : e.opts.pagesize = r.pagesize
  lo : box.min = r.base * r.pagesize
  hi : box.max = (r.base + r.len) * r.pagesize
  lt : box.max < 2 ^ 64

/-- The host protection that an entry of the mapper stands for. -/
def tableProt (t : Target) : Option MapInfo → Prot
  | some info => hostProt t info.prot
  | none => Prot.none

/-- The mapper and the host hold the same protections. -/
structure Agree (e : Engine) (r : Region) (box : LFIBox) (h : Host) : Prop where
  region : BoxRegion e box r
  mapper : Implements r box.mm
  prot : ∀ p, r.Contains p 1 → h.mem.prot p = tableProt e.target (box.mm.table p)

namespace BoxRegion

variable {e : Engine} {box : LFIBox} {r : Region} (hb : BoxRegion e box r) {addr size p : Nat}

include hb

theorem end_lt : (r.base + r.len) * r.pagesize < 2 ^ 64 := hb.hi ▸ hb.lt

theorem fits : r.Fits := by
  refine ⟨hb.end_lt.le, ?_⟩
  exact (Nat.le_mul_of_pos_right _ r.pagesize_pos).trans_lt hb.end_lt

/-- The pages of an aligned range. -/
theorem inSpan_iff (hal : e.opts.pagesize ∣ addr) :
    InSpan e.opts.pagesize addr size p ↔
      addr / r.pagesize ≤ p ∧ p < addr / r.pagesize + r.pages size := by
  have hps := r.pagesize_pos
  rw [hb.pagesize] at hal ⊢
  obtain ⟨i, rfl⟩ := hal
  have hend : r.pagesize * i + size + r.pagesize - 1 =
      r.pagesize * i + (size + r.pagesize - 1) := by omega
  rw [InSpan, spanEnd, hend, Nat.mul_add_div hps, Nat.mul_div_cancel_left _ hps, Region.pages]

/-- A range whose length is given in pages. -/
theorem inSpan_mul_iff (start n : Nat) :
    InSpan e.opts.pagesize (start * r.pagesize) (n * r.pagesize) p ↔
      start ≤ p ∧ p < start + n := by
  rw [hb.inSpan_iff (hb.pagesize ▸ Nat.dvd_mul_left _ _), Nat.mul_div_cancel _ r.pagesize_pos,
    r.pages_mul]

/-- A buffer of the box is a range the mapper accepts. -/
theorem accepts (hvalid : lfiBoxBufvalid box addr size = true) (hsize : 0 < size)
    (hal : e.opts.pagesize ∣ addr) : r.Accepts addr size := by
  have hps := r.pagesize_pos
  simp only [lfiBoxBufvalid, Bool.and_eq_true, decide_eq_true_eq, hb.lo, hb.hi] at hvalid
  rw [hb.pagesize] at hal
  refine ⟨hal, hsize, ?_⟩
  obtain ⟨i, rfl⟩ := hal
  obtain ⟨⟨hlo, hhi⟩, hroom⟩ := hvalid
  have hend : r.pagesize * i + size ≤ r.pagesize * (r.base + r.len) := by
    rw [Nat.mul_comm r.pagesize (r.base + r.len)]
    omega
  rw [Nat.mul_div_cancel_left _ hps]
  constructor
  · exact Nat.le_of_mul_le_mul_left (by rwa [Nat.mul_comm]) hps
  · have hceil : i + r.pages size = (r.pagesize * i + (size + r.pagesize - 1)) / r.pagesize := by
      rw [Nat.mul_add_div hps, Region.pages]
    rw [hceil]
    refine Nat.le_of_lt_succ ((Nat.div_lt_iff_lt_mul hps).mpr ?_)
    rw [Nat.succ_mul, Nat.mul_comm _ r.pagesize]
    omega

theorem toAddr_eq {mm : AddrSpace} (hm : Implements r mm) (hp : p ≤ r.base + r.len) :
    mm.toAddr p = p * r.pagesize := by
  rw [AddrSpace.toAddr, Nat.shiftLeft_eq, hm.p2]
  exact Nat.mod_eq_of_lt ((Nat.mul_le_mul_right _ hp).trans_lt hb.end_lt)

/-- The piece of an entry that an update function gets. -/
theorem clip_eq {mm : AddrSpace} (hm : Implements r mm) {start stop : Nat}
    (hstop : stop ≤ r.base + r.len) {en : Entry Nat MapInfo} (hlt : max en.start start < stop)
    (hlt' : max en.start start < en.stop) :
    mm.clip start stop en = ⟨max en.start start * r.pagesize,
      (min en.stop stop - max en.start start) * r.pagesize, en.val⟩ := by
  have hce : min en.stop stop ≤ r.base + r.len := by omega
  have hle : max en.start start ≤ min en.stop stop := by omega
  have hmul := Nat.mul_le_mul_right r.pagesize hle
  have hlt64 := (Nat.mul_le_mul_right r.pagesize hce).trans_lt hb.end_lt
  rw [AddrSpace.clip]
  simp only [hb.toAddr_eq hm hce, hb.toAddr_eq hm (hle.trans hce), Piece.mk.injEq, true_and,
    and_true, sub64, Nat.sub_mul]
  rw [show 2 ^ 64 + min en.stop stop * r.pagesize - max en.start start * r.pagesize =
    2 ^ 64 + (min en.stop stop * r.pagesize - max en.start start * r.pagesize) by omega,
    Nat.add_mod_left]
  exact Nat.mod_eq_of_lt (by omega)

/-- The pieces that `unmap` hands out are parts of its range. -/
theorem inSpan_of_piece {mm : AddrSpace} (hm : Implements r mm) {piece : Piece}
    (hpiece : piece ∈ (mm.unmap addr size).2.2)
    (hp : InSpan e.opts.pagesize piece.start piece.len p) :
    InSpan e.opts.pagesize addr size p := by
  rw [AddrSpace.unmap] at hpiece
  simp only [hm.toPage_eq, hm.toPageCeil_eq] at hpiece
  split at hpiece
  · cases hpiece
  split at hpiece
  · cases hpiece
  split at hpiece
  · cases hpiece
  · rename_i hargs hpages hvalid
    have hin := hm.isValid_iff.mp (by simpa using hvalid)
    rw [hb.fits.add64_eq hin] at hpiece
    obtain ⟨en, hen, rfl⟩ := List.mem_map.mp hpiece
    have hlt : addr / r.pagesize < addr / r.pagesize + r.pages size := by omega
    obtain ⟨hmem, hse, hes⟩ := (mem_getOverlapping_iff hm.wellFormed hlt).mp hen
    have hne := hm.wellFormed.nonempty en hmem
    rw [hb.clip_eq hm hin.2 (by omega) (by omega), hb.inSpan_mul_iff] at hp
    have hal : e.opts.pagesize ∣ addr := by
      rw [hb.pagesize, Region.pagesize, ← hm.p2]
      exact Nat.dvd_of_mod_eq_zero (by omega)
    rw [hb.inSpan_iff hal]
    omega

/-- The pages of a length that has been rounded up to pages. -/
theorem inSpan_round_iff (hal : e.opts.pagesize ∣ addr) :
    InSpan e.opts.pagesize addr
        ((size + e.opts.pagesize - 1) / e.opts.pagesize * e.opts.pagesize) p ↔
      InSpan e.opts.pagesize addr size p := by
  rw [hb.inSpan_iff hal, hb.inSpan_iff hal, hb.pagesize, r.pages_mul, Region.pages]

theorem mquery_eq (hm : Implements r box.mm) (a : Nat) :
    lfiBoxMquery box a = box.mm.table (a / e.opts.pagesize) := by
  rw [lfiBoxMquery, AddrSpace.queryPage, hm.toPage_eq, hb.pagesize]
  rfl

/-- The pages of the mappable range are those of its addresses. -/
theorem contains_div_iff (a : Nat) :
    r.Contains (a / e.opts.pagesize) 1 ↔ box.min ≤ a ∧ a < box.max := by
  have hps := r.pagesize_pos
  rw [hb.lo, hb.hi, hb.pagesize, Region.Contains, Nat.le_div_iff_mul_le hps, Nat.add_one_le_iff,
    Nat.div_lt_iff_lt_mul hps]

/-- The first address of a page. -/
theorem page_div (p : Nat) : p * e.opts.pagesize / e.opts.pagesize = p := by
  rw [hb.pagesize, Nat.mul_div_cancel _ r.pagesize_pos]

theorem mem_of_contains (hp : r.Contains p 1) :
    box.min ≤ p * e.opts.pagesize ∧ p * e.opts.pagesize < box.max :=
  (hb.contains_div_iff _).mp ((hb.page_div p).symm ▸ hp)

theorem with_mm {mm : AddrSpace} : BoxRegion e { box with mm := mm } r :=
  ⟨hb.pagesize, hb.lo, hb.hi, hb.lt⟩

end BoxRegion

/-! Runs in which every call reports success. -/

inductive MemCall
  | mapany (size : Nat) (prot flags : BitVec 32) (fd off : Int)
  | mapat (addr size : Nat) (prot flags : BitVec 32) (fd off : Int)
  | mprotect (addr size : Nat) (prot : BitVec 32)
  | munmap (addr size : Nat)

structure State where
  box : LFIBox
  host : Host

/-- Whether the call reports success, and the state it leaves. -/
def memCall (e : Engine) (s : State) : MemCall → Bool × State
  | .mapany size prot flags fd off =>
      let r := lfiBoxMapany e s.box s.host size prot flags fd off
      (r.1.isSome, ⟨r.2.1, r.2.2⟩)
  | .mapat addr size prot flags fd off =>
      let r := lfiBoxMapat e s.box s.host addr size prot flags fd off
      (r.1.isSome, ⟨r.2.1, r.2.2⟩)
  | .mprotect addr size prot =>
      let r := lfiBoxMprotect e s.box s.host addr size prot
      (r.1 == 0, ⟨r.2.1, r.2.2⟩)
  | .munmap addr size =>
      let r := lfiBoxMunmap e s.box s.host addr size
      (r.1 == 0, ⟨r.2.1, r.2.2⟩)

/-- A call that succeeds. -/
def SuccessStep (e : Engine) (s : State) (c : MemCall) (t : State) : Prop :=
  memCall e s c = (true, t)

/-- A change of protection that does not reach an unmapped page, unless it
gives no access. -/
def ProtectsMapped (e : Engine) (s : State) : MemCall → Prop
  | .mprotect addr size prot =>
      hostProt e.target prot = Prot.none ∨
        ∀ a, addr ≤ a → a < addr + size → (lfiBoxMquery s.box a).isSome
  | _ => True

/-- The records agree, and the host has every page of the box. -/
structure Inv (e : Engine) (r : Region) (s : State) : Prop where
  agree : Agree e r s.box s.host
  given : ∀ p, r.Contains p 1 → (s.host.mem.pages p).isSome

namespace Inv

variable {e : Engine} {r : Region} {box : LFIBox} {h h' : Host} {addr size : Nat}

/-- A call that gives the pages of an accepted range one protection, in both
records. -/
theorem of_set (hi : Inv e r ⟨box, h⟩) {mm : AddrSpace} (entry : Option MapInfo)
    (hacc : r.Accepts addr size) (hm : Implements r mm)
    (htable : mm.table = box.mm.table.set (addr / r.pagesize) (r.pages size) entry)
    (hwithin : Within e.opts.pagesize addr size h h')
    (hgiven : Given e.opts.pagesize addr size h' (tableProt e.target entry)) :
    Inv e r ⟨{ box with mm := mm }, h'⟩ := by
  have hspan : ∀ p, InSpan e.opts.pagesize addr size p ↔
      addr / r.pagesize ≤ p ∧ p < addr / r.pagesize + r.pages size := fun _ =>
    hi.agree.region.inSpan_iff (hi.agree.region.pagesize ▸ hacc.1)
  refine ⟨⟨hi.agree.region.with_mm, hm, fun p hp => ?_⟩, fun p hp => ?_⟩
  · by_cases hin : InSpan e.opts.pagesize addr size p
    · rw [(hgiven p hin).2, htable, Table.set, if_pos ((hspan p).mp hin)]
    · rw [hwithin.prot hin, htable, Table.set, if_neg (fun hc => hin ((hspan p).mpr hc))]
      exact hi.agree.prot p hp
  · by_cases hin : InSpan e.opts.pagesize addr size p
    · exact (hgiven p hin).1
    · rw [hwithin.pages p hin]
      exact hi.given p hp

theorem mapany (hi : Inv e r ⟨box, h⟩) {prot flags : BitVec 32} {fd off : Int} {t : State}
    (hstep : SuccessStep e ⟨box, h⟩ (.mapany size prot flags fd off) t) : Inv e r t := by
  have hb := hi.agree.region
  simp only [SuccessStep, memCall, lfiBoxMapany, boxMapanyLocked] at hstep
  rcases hi.agree.mapper.mapAny_cases hb.fits 0 size ⟨prot, flags, fd, off⟩ with
    ⟨start, mm, heq, hsize, hin, -, hm, htable, -⟩ | ⟨mm, heq, -⟩
  · simp only [heq] at hstep
    have hpage : start * r.pagesize / r.pagesize = start := Nat.mul_div_cancel _ r.pagesize_pos
    split at hstep
    · cases (Prod.mk.inj hstep).1
    · rename_i hver
      obtain rfl := (Prod.mk.inj hstep).2.symm
      have hacc : r.Accepts (start * r.pagesize) size := by
        refine ⟨Nat.dvd_mul_left _ _, hsize, ?_⟩
        rw [hpage]
        exact hin
      refine hi.of_set (some ⟨prot, flags, fd, off⟩) hacc hm ?_ (within_mapverify ..)
        (given_mapverify (by simpa using hver))
      rw [hpage]
      exact htable
  · simp only [heq] at hstep
    cases (Prod.mk.inj hstep).1

theorem mapat (hi : Inv e r ⟨box, h⟩) {prot flags : BitVec 32} {fd off : Int} {t : State}
    (hstep : SuccessStep e ⟨box, h⟩ (.mapat addr size prot flags fd off) t) : Inv e r t := by
  have hb := hi.agree.region
  simp only [SuccessStep, memCall, lfiBoxMapat, boxMapatLocked] at hstep
  split at hstep
  · cases (Prod.mk.inj hstep).1
  rcases hi.agree.mapper.mapAt_cases hb.fits addr size ⟨prot, flags, fd, off⟩ with
    ⟨mm, heq, hacc, hm, htable, -⟩ | ⟨heq, -⟩
  · simp only [heq] at hstep
    have hpieces : Within e.opts.pagesize addr size h
        ((box.mm.unmap addr size).2.2.foldl (cbunmap e) h) :=
      within_foldl_cbunmap _ (fun _ hpiece _ => hb.inSpan_of_piece hi.agree.mapper hpiece) h
    split at hstep
    · cases (Prod.mk.inj hstep).1
    · rename_i hver
      obtain rfl := (Prod.mk.inj hstep).2.symm
      exact hi.of_set (some ⟨prot, flags, fd, off⟩) hacc hm htable
        (hpieces.trans (within_mapverify ..)) (given_mapverify (by simpa using hver))
  · simp only [heq] at hstep
    cases (Prod.mk.inj hstep).1

theorem mprotect (hi : Inv e r ⟨box, h⟩) {prot : BitVec 32} {t : State}
    (hcond : ProtectsMapped e ⟨box, h⟩ (.mprotect addr size prot))
    (hstep : SuccessStep e ⟨box, h⟩ (.mprotect addr size prot) t) : Inv e r t := by
  have hb := hi.agree.region
  simp only [SuccessStep, memCall, lfiBoxMprotect, boxMprotectLocked] at hstep
  split at hstep
  · cases (Prod.mk.inj hstep).1
  rename_i hargs
  split at hstep
  · cases (Prod.mk.inj hstep).1
  rename_i hvalid
  split at hstep
  · cases (Prod.mk.inj hstep).1
  rename_i hver
  rw [Bool.not_eq_true', Bool.not_eq_false] at hvalid hver
  have hal : e.opts.pagesize ∣ addr := Nat.dvd_of_mod_eq_zero (by omega)
  have hacc := hb.accepts hvalid (by omega) hal
  obtain ⟨mm, pieces, heq, hm, htable⟩ := hi.agree.mapper.protect_ok hb.fits prot hacc
  simp only [heq] at hstep
  obtain rfl := (Prod.mk.inj hstep).2.symm
  refine ⟨⟨hb.with_mm, hm, fun p hp => ?_⟩, fun p hp => ?_⟩
  · by_cases hin : InSpan e.opts.pagesize addr size p
    · have hrange := (hb.inSpan_iff hal).mp hin
      rw [prot_protectverify hver hin (hi.given p hp), htable, Table.protect, if_pos hrange]
      cases hentry : box.mm.table p with
      | some info => rfl
      | none =>
          rcases hcond with hnone | hmapped
          · exact hnone
          · have hpage := hb.page_div p
            obtain ⟨hlo, hhi⟩ := mem_of_inSpan hal (Nat.dvd_of_mod_eq_zero (by omega))
              (hpage.symm ▸ hin)
            have hsome := hmapped _ hlo hhi
            rw [hb.mquery_eq hi.agree.mapper, hpage, hentry] at hsome
            cases hsome
    · have hsame := (within_protectverify h addr size prot false).prot hin
      rw [hsame, htable, Table.protect, if_neg (fun hc => hin ((hb.inSpan_iff hal).mpr hc))]
      exact hi.agree.prot p hp
  · rw [isSome_protectverify]
    exact hi.given p hp

theorem munmap (hi : Inv e r ⟨box, h⟩) {t : State}
    (hstep : SuccessStep e ⟨box, h⟩ (.munmap addr size) t) : Inv e r t := by
  have hb := hi.agree.region
  simp only [SuccessStep, memCall, lfiBoxMunmap, boxMunmapLocked] at hstep
  split at hstep
  · cases (Prod.mk.inj hstep).1
  rename_i hargs
  simp only [Bool.or_eq_true, Bool.not_eq_true', beq_iff_eq, bne_iff_ne, ne_eq, not_or,
    Bool.not_eq_false, not_not] at hargs
  split at hstep
  · cases (Prod.mk.inj hstep).1
  rename_i hmap
  have hal : e.opts.pagesize ∣ addr := Nat.dvd_of_mod_eq_zero hargs.2
  have hacc := hb.accepts hargs.1.1 (Nat.pos_of_ne_zero hargs.1.2) hal
  obtain ⟨mm, pieces, heq, hm, htable⟩ := hi.agree.mapper.unmap_ok hb.fits hacc
  simp only [heq] at hstep
  obtain rfl := (Prod.mk.inj hstep).2.symm
  refine hi.of_set none hacc hm htable
    ((within_mmap ..).mono fun p hp => (hb.inSpan_round_iff hal).mp hp) ?_
  intro p hp
  exact given_mmap (by simpa using hmap) p ((hb.inSpan_round_iff hal).mpr hp)

end Inv

/-- The engine is one that `lfi_new` is used with, and the box is placed where
the allocator of boxes places one. -/
structure Placed (e : Engine) (base : Nat) : Prop where
  target_mem : e.target ∈ Config.all
  pagesize_dvd : e.opts.pagesize ∣ kb 64
  dvd_base : kb 64 ∣ base
  dvd_boxsize : kb 64 ∣ e.opts.boxsize
  room : mb 1 ≤ e.opts.boxsize
  fits : base + e.opts.boxsize < 2 ^ 64

/-- The reservation that a box is made in: pages without access. -/
def Reserved (e : Engine) (box : LFIBox) (h : Host) : Prop :=
  ∀ a, box.min ≤ a → a < box.max →
    (h.mem.pages (a / e.opts.pagesize)).isSome ∧ h.mem.prot (a / e.opts.pagesize) = Prot.none

theorem boxInternalGuard_of_mem {t : Target} (ht : t ∈ Config.all) :
    kb 64 ∣ t.boxInternalGuard ∧ t.boxInternalGuard ≤ kb 192 := by
  revert t
  decide

/-- A new box has a mapper of its mappable range with nothing mapped. -/
theorem boxRegion_new {e : Engine} {base : Nat} {seed : UInt64} {box : LFIBox}
    (hp : Placed e base) (hnew : lfiBoxNew e base seed = some box) :
    ∃ r, BoxRegion e box r ∧ Implements r box.mm ∧ box.mm.table = Table.empty := by
  obtain ⟨hguard, hle⟩ := boxInternalGuard_of_mem hp.target_mem
  have hroom := hp.room
  have hfits := hp.fits
  have hpsle : e.opts.pagesize ≤ kb 64 := Nat.le_of_dvd (by decide) hp.pagesize_dvd
  have hpos : 0 < e.opts.pagesize := Nat.pos_of_dvd_of_pos hp.pagesize_dvd (by decide)
  have hbase := hp.pagesize_dvd.trans hp.dvd_base
  have hsize := hp.pagesize_dvd.trans hp.dvd_boxsize
  replace hguard := hp.pagesize_dvd.trans hguard
  simp only [lfiBoxNew] at hnew
  set off := if e.target.boxInternalGuard > e.opts.pagesize then e.target.boxInternalGuard
    else e.opts.pagesize with hoff
  have hoffdvd : e.opts.pagesize ∣ off := by
    rw [hoff]
    split
    · exact hguard
    · exact dvd_refl _
  have hoffle : off ≤ kb 192 := by
    rw [hoff]
    split
    · exact hle
    · exact hpsle.trans (by decide)
  set stop := base + e.opts.boxsize - e.target.boxInternalGuard with hstop
  have hmin : e.opts.pagesize ∣ base + off := dvd_add hbase hoffdvd
  have hmax : e.opts.pagesize ∣ stop := Nat.dvd_sub (dvd_add hbase hsize) hguard
  have hlen : e.opts.pagesize ∣ stop - (base + off) := Nat.dvd_sub hmax hmin
  have hlt : base + off ≤ stop := by
    have : kb 192 + kb 192 ≤ mb 1 := by decide
    omega
  cases hinit : AddrSpace.init (base + off) (stop - (base + off)) e.opts.pagesize with
  | none =>
      rw [hinit] at hnew
      cases hnew
  | some mm =>
      rw [hinit] at hnew
      obtain rfl := Option.some.inj hnew
      obtain ⟨himpl, hempty⟩ := implements_init hinit hlen
      have hps := pagesize_regionOf hinit
      refine ⟨_, ⟨hps.symm, ?_, ?_, ?_⟩, ?_, ?_⟩
      · rw [hps]
        exact (Nat.div_mul_cancel hmin).symm
      · rw [hps, Nat.add_mul]
        simp only [regionOf]
        rw [Nat.div_mul_cancel hmin, Nat.div_mul_cancel hlen]
        exact (Nat.add_sub_cancel' hlt).symm
      · exact (Nat.sub_le _ _).trans_lt hfits
      · change Implements _ (if e.opts.noAslr then mm else mm.enableAslr seed)
        split
        · exact himpl
        · exact ⟨himpl.base, himpl.len, himpl.p2, himpl.wellFormed, himpl.inside, himpl.running⟩
      · change (if e.opts.noAslr then mm else mm.enableAslr seed).table = _
        split <;> exact hempty

theorem inv_new {e : Engine} {base : Nat} {seed : UInt64} {box : LFIBox} {h : Host}
    (hp : Placed e base) (hnew : lfiBoxNew e base seed = some box) (hres : Reserved e box h) :
    ∃ r, Inv e r ⟨box, h⟩ := by
  obtain ⟨r, hb, hm, hempty⟩ := boxRegion_new hp hnew
  have hpage : ∀ p, r.Contains p 1 →
      (h.mem.pages p).isSome ∧ h.mem.prot p = Prot.none := by
    intro p hin
    obtain ⟨hlo, hhi⟩ := hb.mem_of_contains hin
    have hmem := hres _ hlo hhi
    rwa [hb.page_div] at hmem
  refine ⟨r, ⟨hb, hm, fun p hin => ?_⟩, fun p hin => (hpage p hin).1⟩
  rw [(hpage p hin).2, hempty]
  rfl

/-- Every call that succeeds keeps the two records in agreement. -/
theorem Inv.step {e : Engine} {r : Region} {s t : State} {c : MemCall} (hi : Inv e r s)
    (hcond : ProtectsMapped e s c) (hstep : SuccessStep e s c t) : Inv e r t := by
  cases c with
  | mapany size prot flags fd off => exact hi.mapany hstep
  | mapat addr size prot flags fd off => exact hi.mapat hstep
  | mprotect addr size prot => exact hi.mprotect hcond hstep
  | munmap addr size => exact hi.munmap hstep

/-- After any run of calls that succeed, none of which gives access to an
unmapped page, the host protects every page as the mapper says. -/
theorem host_agrees_with_mapper {e : Engine} {base : Nat} {seed : UInt64} {box : LFIBox}
    {h : Host} {t : State} (hp : Placed e base) (hnew : lfiBoxNew e base seed = some box)
    (hres : Reserved e box h)
    (hrun : Reaches (SuccessStep e) (ProtectsMapped e) ⟨box, h⟩ t) :
    ∀ addr, box.min ≤ addr → addr < box.max →
      t.host.mem.prot (addr / e.opts.pagesize) =
        tableProt e.target (lfiBoxMquery t.box addr) := by
  obtain ⟨r, hinv⟩ := inv_new hp hnew hres
  have hb := hinv.agree.region
  have hend : Inv e r t := hrun.invariant hinv fun _ _ _ hs hcond hstep => hs.step hcond hstep
  intro addr hlo hhi
  have hin : r.Contains (addr / e.opts.pagesize) 1 := (hb.contains_div_iff addr).mpr ⟨hlo, hhi⟩
  rw [hend.agree.prot _ hin, hend.agree.region.mquery_eq hend.agree.mapper]

/-- Pages without access everywhere. -/
def reservedHost : Host where
  mem :=
    { pages := fun _ => some ⟨Prot.none, .priv⟩
      priv := fun _ => 0
      files := fun _ _ => 0 }
  outcomes := []
  verified := []

theorem reserved_reservedHost : Reserved nopEngine emptyBox reservedHost :=
  fun _ _ _ => ⟨rfl, rfl⟩

theorem placed_nopEngine : Placed nopEngine (gb 4) :=
  ⟨by decide, by decide, by decide, by decide, by decide, by decide⟩

theorem lfiBoxNew_nopEngine : lfiBoxNew nopEngine (gb 4) 0 = some emptyBox := rfl

/-- Two pages, of which the first is then made read-only. -/
theorem host_agrees_with_mapper_after_mprotect :
    let t := memCall nopEngine ⟨emptyBox, reservedHost⟩
      (.mapany 8192 (LFI_PROT_READ ||| LFI_PROT_WRITE) 34 (-1) 0)
    let u := memCall nopEngine t.2 (.mprotect emptyBox.min 4096 LFI_PROT_READ)
    ∀ addr, emptyBox.min ≤ addr → addr < emptyBox.max →
      u.2.host.mem.prot (addr / nopEngine.opts.pagesize) =
        tableProt nopEngine.target (lfiBoxMquery u.2.box addr) := by
  intro t u
  have hmap : t = (true, t.2) := Prod.ext (by decide) rfl
  have hprotect : u = (true, u.2) := Prod.ext (by decide) rfl
  refine host_agrees_with_mapper placed_nopEngine lfiBoxNew_nopEngine reserved_reservedHost
    (((Reaches.refl _).tail (l := .mapany 8192 (LFI_PROT_READ ||| LFI_PROT_WRITE) 34 (-1) 0)
      trivial hmap).tail (l := .mprotect emptyBox.min 4096 LFI_PROT_READ) (.inr ?_) hprotect)
  intro a hlo hhi
  have hpage : a >>> 12 = 0x100001 := by
    have hmin : emptyBox.min = 0x100001000 := rfl
    rw [Nat.shiftRight_eq_div_pow]
    omega
  have hp2 : t.2.box.mm.p2pagesize = 12 := by decide
  rw [lfiBoxMquery, AddrSpace.queryPage, AddrSpace.toPage, hp2, hpage]
  decide

/-- A page that was never mapped becomes writable on the host, and the mapper
still does not know it. -/
theorem unmapped_page_made_writable :
    Placed nopEngine (gb 4) ∧ lfiBoxNew nopEngine (gb 4) 0 = some emptyBox ∧
      Reserved nopEngine emptyBox reservedHost ∧
      ∃ t, Reaches (SuccessStep nopEngine) anyStep ⟨emptyBox, reservedHost⟩ t ∧
        lfiBoxMquery t.box emptyBox.min = none ∧
        t.host.mem.prot (emptyBox.min / nopEngine.opts.pagesize) = Prot.readWrite := by
  let c := MemCall.mprotect emptyBox.min 4096 (LFI_PROT_READ ||| LFI_PROT_WRITE)
  have hok : memCall nopEngine ⟨emptyBox, reservedHost⟩ c =
      (true, (memCall nopEngine ⟨emptyBox, reservedHost⟩ c).2) := Prod.ext (by decide) rfl
  exact ⟨placed_nopEngine, lfiBoxNew_nopEngine, reserved_reservedHost, _,
    (Reaches.refl _).tail (l := c) trivial hok, by decide, by decide⟩

end LfiRuntime.Box
