import LfiRuntime.Box.ExecVerified
import LfiRuntime.Box.FailedCalls

/-!
What a fixed mapping does to a box, whether it succeeds or fails.
-/

namespace LfiRuntime.Box

open LfiRuntime.PagedMemory
open LfiRuntime.Config
open LfiRuntime.HostCalls
open LfiRuntime.Mmap

/-- The mapper of the box keeps to the box's range. -/
structure Works (e : Engine) (r : Region) (box : LFIBox) : Prop where
  region : BoxRegion e box r
  mapper : Implements r box.mm

variable {e : Engine} {r : Region} {box : LFIBox} {h : Host} {addr size a p : Nat}
  {prot flags : BitVec 32} {fd off : Int}

theorem Works.with_mm {mm : AddrSpace} (hw : Works e r box) (hm : Implements r mm) :
    Works e r { box with mm := mm } := ⟨hw.region.with_mm, hm⟩

/-- The host when what was mapped in the range has been taken away. -/
def unmapped (e : Engine) (box : LFIBox) (h : Host) (addr size : Nat) : Host :=
  (box.mm.unmap addr size).2.2.foldl (cbunmap e) h

theorem Works.within_unmapped (hw : Works e r box) (h : Host) (addr size : Nat) :
    Within e.opts.pagesize addr size h (unmapped e box h addr size) :=
  within_foldl_cbunmap _ (fun _ hpiece _ => hw.region.inSpan_of_piece hw.mapper hpiece) h

/-! No operation on the box changes a file. -/

theorem files_mmap (ps : Nat) (h : Host) (start len : Nat) (pr : Prot) (src : Option Source) :
    (mmap ps h start len pr src).2.mem.files = h.mem.files := by
  rcases mmap_cases ps h start len pr src with ⟨s, -, -, -, -, heq⟩ | ⟨-, n, -, heq⟩ | heq
  · rw [heq]
    rfl
  · rw [heq]
    rfl
  · rw [heq]
    rfl

theorem files_mprotect (ps : Nat) (h : Host) (start len : Nat) (pr : Prot) :
    (mprotect ps h start len pr).2.mem.files = h.mem.files :=
  (sameBytes_mprotect ps h start len pr).files

theorem files_munmap (ps : Nat) (h : Host) (start len : Nat) :
    (munmap ps h start len).2.mem.files = h.mem.files := by
  rcases munmap_cases ps h start len with ⟨-, n, -, heq⟩ | heq
  · rw [heq]
    rfl
  · rw [heq]
    rfl

theorem files_mapmem (h : Host) (start size : Nat) (prot flags : BitVec 32) (fd off : Int) :
    (mapmem e h start size prot flags fd off).2.mem.files = h.mem.files := by
  have hmap := files_mmap e.opts.pagesize h start size (hostProt e.target prot)
    (hostSource e.opts.pagesize flags fd off)
  simp only [mapmem]
  split_ifs
  · exact hmap
  · exact ((files_munmap ..).trans (files_mprotect ..)).trans hmap
  · exact (files_mprotect ..).trans hmap
  · exact hmap

theorem files_mapverify (h : Host) (start size : Nat) (prot flags : BitVec 32) (fd off : Int)
    (noVerify : Bool) :
    (mapverify e h start size prot flags fd off noVerify).2.mem.files = h.mem.files := by
  have hmap := files_mapmem (e := e) h start size LFI_PROT_READ flags fd off
  simp only [mapverify]
  split_ifs
  · exact files_mapmem ..
  · rfl
  · exact hmap
  · rw [mem_lfivVerify]
    exact hmap
  · refine (files_mprotect ..).trans ?_
    rw [mem_lfivVerify]
    exact hmap

theorem files_foldl_cbunmap (pieces : List Piece) (h : Host) :
    (pieces.foldl (cbunmap e) h).mem.files = h.mem.files := by
  induction pieces generalizing h with
  | nil => rfl
  | cons piece pieces ih =>
      rw [List.foldl_cons, ih]
      simp only [cbunmap]
      split_ifs
      · exact files_mmap ..
      · exact (files_mprotect ..).trans (files_mmap ..)

/-- The pages of the range have the entry `entry` now, in a box that is otherwise as
before. -/
structure Sets (e : Engine) (r : Region) (box : LFIBox) (h : Host) (addr size : Nat)
    (entry : Option MapInfo) (box' : LFIBox) (h' : Host) : Prop where
  box_eq : ∃ mm, box' = { box with mm := mm }
  works : Works e r box'
  table : box'.mm.table = box.mm.table.set (addr / r.pagesize) (r.pages size) entry
  within : Within e.opts.pagesize addr size h h'
  files : h'.mem.files = h.mem.files

/-- A fixed mapping is refused, or it is made, or it fails and the range is free. -/
theorem mapat_cases (hw : Works e r box) (h : Host) (addr size : Nat) (prot flags : BitVec 32)
    (fd off : Int) :
    let u := boxMapatLocked e box h addr size prot flags fd off
    let v := mapverify e (unmapped e box h addr size) addr size prot flags fd off false
    (u = (none, box, h) ∧ ¬(lfiBoxBufvalid box addr size = true ∧ r.Accepts addr size)) ∨
      lfiBoxBufvalid box addr size = true ∧ r.Accepts addr size ∧
        (v.1 = true ∧ u.1 = some addr ∧
            Sets e r box h addr size (some ⟨prot, flags, fd, off⟩) u.2.1 u.2.2 ∧ u.2.2 = v.2 ∨
          v.1 = false ∧ u.1 = none ∧ Sets e r box h addr size none u.2.1 u.2.2 ∧
            u.2.2 = cbunmap e v.2 ⟨addr, r.pages size * r.pagesize, ⟨prot, flags, fd, off⟩⟩) := by
  intro u v
  have hb := hw.region
  have hv : Within e.opts.pagesize addr size h v.2 :=
    (hw.within_unmapped h addr size).trans (within_mapverify ..)
  have hf : v.2.mem.files = h.mem.files := (files_mapverify ..).trans (files_foldl_cbunmap ..)
  simp only [u, v, boxMapatLocked, unmapped] at hv hf ⊢
  cases hbuf : lfiBoxBufvalid box addr size with
  | false => exact .inl ⟨rfl, by simp⟩
  | true =>
      simp only [Bool.not_true, Bool.false_eq_true, if_false, true_and]
      rcases hw.mapper.mapAt_cases hb.fits addr size ⟨prot, flags, fd, off⟩ with
        ⟨mm, heq, hacc, hm, htable, hrec⟩ | ⟨heq, hacc⟩
      · refine .inr ⟨hacc, ?_⟩
        simp only [heq]
        generalize mapverify e _ addr size prot flags fd off false = w at hv hf ⊢
        obtain ⟨ok, h'⟩ := w
        cases ok with
        | true => exact .inl ⟨rfl, rfl, ⟨⟨mm, rfl⟩, hw.with_mm hm, htable, hv, hf⟩, rfl⟩
        | false =>
            refine .inr ⟨rfl, rfl, ?_⟩
            obtain ⟨mm', hunmap, hm', htable'⟩ := hb.unmap_recorded hm hacc hrec
            simp only [Bool.not_false, if_true, unmapPieces, hunmap]
            refine ⟨⟨⟨mm', rfl⟩, hw.with_mm hm', ?_, ?_, ?_⟩, rfl⟩
            · rw [htable', htable, Table.set_set]
            · exact hv.trans ((within_cbunmap ..).mono fun p hp => (hb.inSpan_pages hacc).mp hp)
            · exact (files_foldl_cbunmap [_] _).trans hf
      · simp only [heq]
        exact .inl ⟨trivial, hacc⟩

/-- A mapping at an address of the mapper's choice is made in a free range, or it fails and
the table is as before. -/
theorem mapany_cases (hw : Works e r box) (h : Host) (size : Nat) (prot flags : BitVec 32)
    (fd off : Int) (noVerify : Bool) :
    let u := boxMapanyLocked e box h size prot flags fd off noVerify
    (∃ addr, u.1 = some addr ∧ r.Accepts addr size ∧
        box.mm.table.Free (addr / r.pagesize) (r.pages size) ∧
        Sets e r box h addr size (some ⟨prot, flags, fd, off⟩) u.2.1 u.2.2 ∧
        (mapverify e h addr size prot flags fd off noVerify).1 = true ∧
        u.2.2 = (mapverify e h addr size prot flags fd off noVerify).2) ∨
      u.1 = none ∧ (∃ mm, u.2.1 = { box with mm := mm }) ∧ Works e r u.2.1 ∧
        u.2.1.mm.table = box.mm.table ∧
        ((box.mm.mapAny 0 size ⟨prot, flags, fd, off⟩).1 = none ∧ u.2.2 = h ∨
          ∃ addr, (box.mm.mapAny 0 size ⟨prot, flags, fd, off⟩).1 = some addr ∧
            r.Accepts addr size ∧ (mapverify e h addr size prot flags fd off noVerify).1 = false ∧
            u.2.2 = cbunmap e (mapverify e h addr size prot flags fd off noVerify).2
              ⟨addr, r.pages size * r.pagesize, ⟨prot, flags, fd, off⟩⟩) := by
  intro u
  have hb := hw.region
  simp only [u, boxMapanyLocked]
  rcases hw.mapper.mapAny_cases hb.fits 0 size ⟨prot, flags, fd, off⟩ with
    ⟨start, mm, heq, hsize, hin, hfree, hm, htable, hrec⟩ | ⟨mm, heq, hm, htable⟩
  · have hpage : start * r.pagesize / r.pagesize = start := Nat.mul_div_cancel _ r.pagesize_pos
    have hacc : r.Accepts (start * r.pagesize) size :=
      ⟨Nat.dvd_mul_left _ _, hsize, by rw [hpage]; exact hin⟩
    have hv := @within_mapverify e h (start * r.pagesize) size prot flags fd off noVerify
    have hf := files_mapverify (e := e) h (start * r.pagesize) size prot flags fd off noVerify
    simp only [heq]
    cases hver : (mapverify e h (start * r.pagesize) size prot flags fd off noVerify).1 with
    | true =>
        refine .inl ⟨_, rfl, hacc, by rwa [hpage], ?_, hver, rfl⟩
        exact ⟨⟨mm, rfl⟩, hw.with_mm hm, by rw [hpage]; exact htable, hv, hf⟩
    | false =>
        obtain ⟨mm', hunmap, hm', htable'⟩ := hb.unmap_recorded hm hacc hrec
        simp only [Bool.not_false, if_true, unmapPieces, hunmap]
        refine .inr ⟨trivial, ⟨mm', rfl⟩, hw.with_mm hm', ?_, .inr ⟨_, rfl, hacc, hver, rfl⟩⟩
        rw [htable', htable, hpage, Table.set_none_of_free hfree]
  · simp only [heq]
    exact .inr ⟨trivial, ⟨mm, rfl⟩, hw.with_mm hm, htable, .inl ⟨trivial, trivial⟩⟩

def MAP_FLAGS : BitVec 32 := LFI_MAP_PRIVATE ||| LFI_MAP_ANONYMOUS

theorem hostSource_anon (ps : Nat) (fd off : Int) : hostSource ps MAP_FLAGS fd off = some .anon := rfl

/-- A mapping without execute permission is not shown to the verifier. -/
theorem mapverify_eq_mapmem (hexec : has prot LFI_PROT_EXEC = false) (noVerify : Bool) :
    mapverify e h addr size prot flags fd off noVerify = mapmem e h addr size prot flags fd off := by
  have hskip : skipsVerifier e prot (noVerify || e.opts.noVerify) = true := by
    simp [skipsVerifier, hexec]
  simp only [mapverify, hskip, if_true]

/-! What a mapping that fails leaves of the access to a page. -/

/-- `cbunmap` takes the access to each page that one of its host calls reaches. -/
theorem prot_cbunmap {piece : Piece} (hal : piece.start % e.opts.pagesize = 0)
    (hlen : 0 < piece.len) (hend : piece.start + piece.len ≤ 2 ^ 64)
    (hp : InSpan e.opts.pagesize piece.start piece.len p) :
    (cbunmap e h piece).mem.prot p =
      if ReachesPage e.opts.pagesize h 0 piece.start p ∨ ReachesPage e.opts.pagesize h 1 piece.start p
      then Prot.none else h.mem.prot p := by
  unfold cbunmap
  rw [mmap_eq hal hlen hend, mmapOk, Option.isSome_some, Bool.and_true, mmapMem]
  cases h0 : outcome h 0 with
  | true =>
      have hreach := @reachesPage_of_ok e.opts.pagesize piece.start p h 0 h0
      simp only [if_true, hreach, true_or, mem_used, Memory.prot_mmapFixed, hp]
  | false =>
      simp only [Bool.false_eq_true, if_false]
      rw [mprotect_eq hal, result_tail, mem_used, mem_used, Memory.prot, Memory.prot,
        pages_mprotect_extent hal hp, pages_munmap_extent hal hp]
      by_cases hr : ReachesPage e.opts.pagesize h 0 piece.start p
      · simp [hr]
      · by_cases hr' : ReachesPage e.opts.pagesize h 1 piece.start p
        · cases hpg : h.mem.pages p <;> simp [hr, hr']
        · simp [hr, hr']

theorem prot_cbunmap_or (h : Host) (piece : Piece) (p : Nat) :
    (cbunmap e h piece).mem.prot p = Prot.none ∨
      (cbunmap e h piece).mem.prot p = h.mem.prot p := by
  have hprotect : ∀ h' : Host, h'.mem.prot p = Prot.none ∨ h'.mem.prot p = h.mem.prot p →
      (mprotect e.opts.pagesize h' piece.start piece.len Prot.none).2.mem.prot p = Prot.none ∨
        (mprotect e.opts.pagesize h' piece.start piece.len Prot.none).2.mem.prot p =
          h.mem.prot p := by
    intro h' hor
    have hpart : ∀ n, (h'.mem.mprotect e.opts.pagesize piece.start n Prot.none).prot p = Prot.none ∨
        (h'.mem.mprotect e.opts.pagesize piece.start n Prot.none).prot p = h.mem.prot p := by
      intro n
      by_cases hp : InSpan e.opts.pagesize piece.start n p
      · exact .inl ((Memory.prot_mprotect_or h'.mem Prot.none hp).elim id id)
      · rwa [Memory.prot_mprotect_of_not hp]
    rcases mprotect_cases e.opts.pagesize h' piece.start piece.len Prot.none with
      ⟨-, -, heq⟩ | ⟨-, n, -, heq⟩ | heq
    · rw [heq]
      exact hpart piece.len
    · rw [heq]
      exact hpart n
    · rw [heq]
      exact hor
  unfold cbunmap
  rcases mmap_cases e.opts.pagesize h piece.start piece.len Prot.none (some .anon) with
    ⟨src, -, -, -, -, heq⟩ | ⟨-, n, -, heq⟩ | heq
  · rw [heq]
    simp only [if_true, mem_used, Memory.prot_mmapFixed]
    split
    · exact .inl rfl
    · exact .inr rfl
  · rw [heq]
    refine hprotect _ ?_
    rw [mem_used, Memory.prot_munmap]
    split
    · exact .inl rfl
    · exact .inr rfl
  · rw [heq]
    exact hprotect _ (.inr rfl)

theorem prot_unmapped_or (box : LFIBox) (h : Host) (addr size p : Nat) :
    (unmapped e box h addr size).mem.prot p = Prot.none ∨
      (unmapped e box h addr size).mem.prot p = h.mem.prot p := by
  unfold unmapped
  generalize (box.mm.unmap addr size).2.2 = pieces
  induction pieces generalizing h with
  | nil => exact .inr rfl
  | cons piece pieces ih =>
      rw [List.foldl_cons]
      rcases ih (cbunmap e h piece) with hnone | hsame
      · exact .inl hnone
      · rw [hsame]
        exact prot_cbunmap_or h piece p

/-- The page of a mapping that cannot have its key: `mapmem` has made it, and
no host call that would take it back again reaches it. -/
def StaysOpen (e : Engine) (h : Host) (addr p : Nat) : Prop :=
  let ps := e.opts.pagesize
  e.target.pku = true ∧ outcome h 0 = true ∧ outcome h 1 = false ∧
    ¬ReachesPage ps h 2 addr p ∧ ¬ReachesPage ps h 3 addr p ∧ ¬ReachesPage ps h 4 addr p

/-- A page that cannot be taken back stays, and else the access to it is gone or has never
changed. -/
theorem prot_undone {piece : Piece} (hacc : addr % e.opts.pagesize = 0 ∧ 0 < size ∧
      size ≤ piece.len ∧ addr + piece.len < 2 ^ 64) (hstart : piece.start = addr)
    (hexec : has prot LFI_PROT_EXEC = false)
    (hfail : (mapverify e h addr size prot MAP_FLAGS fd off false).1 = false)
    (hp : InSpan e.opts.pagesize addr size p) :
    let h' := cbunmap e (mapverify e h addr size prot MAP_FLAGS fd off false).2 piece
    (StaysOpen e h addr p → h'.mem.prot p = hostProt e.target prot) ∧
      (¬StaysOpen e h addr p → h'.mem.prot p = Prot.none ∨ h'.mem.prot p = h.mem.prot p) := by
  intro h'
  obtain ⟨hal, hsize, hlen, hend⟩ := hacc
  have hp' : InSpan e.opts.pagesize piece.start piece.len p := by
    rw [hstart]
    exact inSpan_mono le_rfl (by omega) hp
  have hal' : piece.start % e.opts.pagesize = 0 := by rw [hstart, hal]
  simp only [h']
  rw [mapverify_eq_mapmem hexec] at hfail ⊢
  rcases mapmem_fail hal hp hsize (by omega) hfail with
    ⟨hmap, -, hpage⟩ | ⟨hmap, hpku, hkey, hresult, b, hpage⟩
  · rw [hostSource_anon, mmapOk, Option.isSome_some, Bool.and_true] at hmap
    refine ⟨fun hstays => ?_, fun _ => ?_⟩
    · rw [hstays.2.1] at hmap
      cases hmap
    · refine (prot_cbunmap_or _ piece p).elim .inl fun hsame => ?_
      rw [hsame, Memory.prot, hpage]
      split_ifs
      · exact .inl rfl
      · exact .inr rfl
  · rw [hostSource_anon, mmapOk, Option.isSome_some, Bool.and_true] at hmap
    have hreach : ∀ i, ReachesPage e.opts.pagesize
        (mapmem e h addr size prot MAP_FLAGS fd off).2 i addr p ↔
          ReachesPage e.opts.pagesize h (i + 3) addr p := fun i => reachesPage_shift (hresult i)
    rw [prot_cbunmap hal' (by omega) (by omega) hp', Memory.prot, hpage]
    simp only [StaysOpen, hstart, hreach, hmap, hpku, hkey, true_and]
    by_cases h2 : ReachesPage e.opts.pagesize h 2 addr p <;>
      by_cases h3 : ReachesPage e.opts.pagesize h 3 addr p <;>
        by_cases h4 : ReachesPage e.opts.pagesize h 4 addr p <;> simp [h2, h3, h4]

/-! What a mapping that is made shows. -/

/-- What a mapping that is made shows, up to protections. -/
theorem sameBytes_mapmem {src : Source} (hsrc : hostSource e.opts.pagesize flags fd off = some src)
    (hok : (mapmem e h addr size prot flags fd off).1 = true) :
    Memory.SameBytes (mapmem e h addr size prot flags fd off).2.mem
      (h.mem.mmapFixed e.opts.pagesize addr size (hostProt e.target prot) src) := by
  simp only [mapmem, hsrc] at hok ⊢
  rcases mmap_cases e.opts.pagesize h addr size (hostProt e.target prot) (some src) with
    ⟨s, hs, -, -, -, heq⟩ | ⟨-, n, -, heq⟩ | heq
  · obtain rfl := Option.some.inj hs
    rw [heq] at hok ⊢
    simp only [Bool.not_true, Bool.false_eq_true, if_false] at hok ⊢
    split at hok
    · rename_i hpku
      rw [if_pos hpku]
      split at hok
      · cases hok
      · rename_i hkey
        rw [if_neg hkey]
        exact sameBytes_mprotect ..
    · rename_i hpku
      rw [if_neg hpku]
      exact .refl _
  · rw [heq] at hok
    cases hok
  · rw [heq] at hok
    cases hok

theorem sameBytes_mapverify {src : Source} {noVerify : Bool}
    (hsrc : hostSource e.opts.pagesize flags fd off = some src)
    (hok : (mapverify e h addr size prot flags fd off noVerify).1 = true) :
    ∃ pr, Memory.SameBytes (mapverify e h addr size prot flags fd off noVerify).2.mem
      (h.mem.mmapFixed e.opts.pagesize addr size pr src) := by
  simp only [mapverify] at hok ⊢
  split at hok
  · rename_i hskip
    rw [if_pos hskip]
    exact ⟨_, sameBytes_mapmem hsrc hok⟩
  rename_i hskip
  rw [if_neg hskip]
  split at hok
  · cases hok
  rename_i hwx
  rw [if_neg hwx]
  split at hok
  · cases hok
  rename_i hmap
  rw [if_neg hmap]
  have hsame := sameBytes_mapmem hsrc (by simpa using hmap)
  split at hok
  · cases hok
  rename_i hver
  rw [if_neg hver]
  refine ⟨hostProt e.target LFI_PROT_READ, (sameBytes_mprotect ..).trans ?_⟩
  rw [mem_lfivVerify]
  exact hsame

/-! Contents. -/

/-- The byte that a private mapping from `addr` on shows at `a`. -/
def sourceByte (files : Int → Nat → UInt8) (addr a : Nat) : Source → UInt8
  | .privateFile f off => files f (off + (a - addr))
  | _ => 0

theorem hostSource_dvd {ps : Nat} {f : Int} {o : Nat}
    (hsrc : hostSource ps flags fd off = some (.privateFile f o)) : ps ∣ o := by
  unfold hostSource at hsrc
  split_ifs at hsrc with hkind hanon hpos hshared
  · cases hsrc
  · cases hsrc
  obtain ⟨rfl, rfl⟩ := Source.privateFile.inj (Option.some.inj hsrc)
  simp only [not_or, not_not, not_lt] at hpos
  rw [← Int.natCast_dvd_natCast, Int.toNat_of_nonneg hpos.2.1]
  exact Int.dvd_of_emod_eq_zero hpos.2.2

/-- The bytes of a page that shows a file are those of the file from its offset on. -/
theorem page_offset {ps off : Nat} (hal : ps ∣ addr) (hoff : ps ∣ off) (hle : addr / ps ≤ a / ps) :
    (off / ps + (a / ps - addr / ps)) * ps + a % ps = off + (a - addr) := by
  have hmod := Nat.div_add_mod a ps
  have hmul := Nat.mul_le_mul_right ps hle
  rw [Nat.div_mul_cancel hal] at hmul
  rw [Nat.add_mul, Nat.sub_mul, Nat.div_mul_cancel hoff, Nat.div_mul_cancel hal]
  rw [Nat.mul_comm] at hmod
  omega

theorem read_mmapFixed {m : Memory} {src : Source} {pr : Prot}
    (hsrc : hostSource e.opts.pagesize flags fd off = some src)
    (hpriv : ∀ f off, src ≠ .sharedFile f off) (hal : e.opts.pagesize ∣ addr)
    (ha : InSpan e.opts.pagesize addr size (a / e.opts.pagesize)) :
    (m.mmapFixed e.opts.pagesize addr size pr src).read e.opts.pagesize a =
      sourceByte m.files addr a src := by
  rw [Memory.read, Memory.cell, Memory.backing_mmapFixed_of_private ha hpriv]
  cases src with
  | anon => simp [Memory.get, Memory.mmapFixed, ha, sourceByte]
  | privateFile f o =>
      have hoff := page_offset hal (hostSource_dvd hsrc) ha.1
      simp [Memory.get, Memory.mmapFixed, ha, sourceByte, hoff]
  | sharedFile f o => exact absurd rfl (hpriv f o)

theorem page_eq_of_given {m : Memory} {pr : Prot} (hsome : (m.pages p).isSome) (hprot : m.prot p = pr)
    (hback : m.backing p = .priv) : m.pages p = some ⟨pr, .priv⟩ := by
  obtain ⟨pg, hpg⟩ := Option.isSome_iff_exists.mp hsome
  rw [Memory.prot, hpg] at hprot
  rw [Memory.backing, hpg] at hback
  rw [hpg, ← hprot, ← hback]

/-- A page of the host shows the bytes of a private mapping. -/
def ShowsPrivate (e : Engine) (h h' : Host) (addr a : Nat) (src : Source) : Prop :=
  h'.mem.read e.opts.pagesize a = sourceByte h.mem.files addr a src ∧
    h'.mem.backing (a / e.opts.pagesize) = .priv

theorem mapmem_private {src : Source} (hsrc : hostSource e.opts.pagesize flags fd off = some src)
    (hpriv : ∀ f off, src ≠ .sharedFile f off) (hal : e.opts.pagesize ∣ addr)
    (hok : (mapmem e h addr size prot flags fd off).1 = true)
    (ha : InSpan e.opts.pagesize addr size (a / e.opts.pagesize)) :
    ShowsPrivate e h (mapmem e h addr size prot flags fd off).2 addr a src := by
  have hsame := sameBytes_mapmem hsrc hok
  refine ⟨?_, ?_⟩
  · rw [hsame.read]
    exact read_mmapFixed hsrc hpriv hal ha
  · rw [hsame.backing]
    exact Memory.backing_mmapFixed_of_private ha hpriv

/-- New anonymous memory is private and zero. -/
theorem mapmem_anon (hal : addr % e.opts.pagesize = 0) (hsize : 0 < size)
    (hend : addr + size ≤ 2 ^ 64) :
    let m := mapmem e h addr size prot MAP_FLAGS fd off
    (m.1 = true ↔ MapsRet e h) ∧
      (m.1 = true → ∀ a, InSpan e.opts.pagesize addr size (a / e.opts.pagesize) →
        m.2.mem.read e.opts.pagesize a = 0 ∧
          m.2.mem.pages (a / e.opts.pagesize) = some ⟨hostProt e.target prot, .priv⟩) ∧
      m.2.mem.files = h.mem.files := by
  intro m
  refine ⟨?_, fun hok a ha => ?_, files_mapmem ..⟩
  · simp only [m]
    rw [mapmem_eq hal hsize hend, hostSource_anon, mmapOk, Option.isSome_some, Bool.and_true,
      MapsRet]
    cases outcome h 0 <;> cases outcome h 1 <;> cases e.target.pku <;> simp
  · obtain ⟨hbyte, hback⟩ := mapmem_private (hostSource_anon _ _ _) (by simp)
      (Nat.dvd_of_mod_eq_zero hal) hok ha
    obtain ⟨hsome, hprot⟩ := given_mapmem hok _ ha
    exact ⟨hbyte, page_eq_of_given hsome hprot hback⟩

/-- A mapping that succeeds shows its source, and is not refused. -/
theorem mapverify_private {src : Source} (hsrc : hostSource e.opts.pagesize flags fd off = some src)
    (hpriv : ∀ f off, src ≠ .sharedFile f off) (hal : e.opts.pagesize ∣ addr)
    (hok : (mapverify e h addr size prot flags fd off false).1 = true) :
    refuses e prot = false ∧ ∀ a, InSpan e.opts.pagesize addr size (a / e.opts.pagesize) →
      ShowsPrivate e h (mapverify e h addr size prot flags fd off false).2 addr a src := by
  constructor
  · by_contra hrefuses
    simp only [mapverify] at hok
    split at hok
    · rename_i hskip
      exact hrefuses (skipsVerifier_eq_true_iff.mp hskip).2
    rename_i hskip
    split at hok
    · cases hok
    rename_i hwx
    exact hrefuses (consults_of_not_skips hskip hwx).2
  · intro a ha
    obtain ⟨pr, hsame⟩ := sameBytes_mapverify hsrc hok
    refine ⟨?_, ?_⟩
    · rw [hsame.read]
      exact read_mmapFixed hsrc hpriv hal ha
    · rw [hsame.backing]
      exact Memory.backing_mmapFixed_of_private ha hpriv

theorem refuses_of_protectverify (hok : (protectverify e h addr size prot false).1 = true) :
    refuses e prot = false := by
  simp only [protectverify] at hok
  split at hok
  · rename_i hskip
    exact (skipsVerifier_eq_true_iff.mp hskip).2
  · rename_i hskip
    split at hok
    · cases hok
    · rename_i hwx
      exact (consults_of_not_skips hskip hwx).2

/-! What stays elsewhere. -/

/-- The box and the host change in the pages of a range only. -/
structure Only (e : Engine) (r : Region) (addr size : Nat) (box : LFIBox) (h : Host)
    (box' : LFIBox) (h' : Host) : Prop where
  box_eq : ∃ mm, box' = { box with mm := mm }
  works : Works e r box'
  table : ∀ k, ¬InSpan e.opts.pagesize addr size k → box'.mm.table k = box.mm.table k
  within : Within e.opts.pagesize addr size h h'
  files : h'.mem.files = h.mem.files

namespace Only

variable {box' box'' : LFIBox} {h' h'' : Host}

theorem refl (hw : Works e r box) (h : Host) (addr size : Nat) : Only e r addr size box h box h :=
  ⟨⟨box.mm, rfl⟩, hw, fun _ _ => rfl, .refl h, rfl⟩

theorem trans (ho : Only e r addr size box h box' h') (ho' : Only e r addr size box' h' box'' h'') :
    Only e r addr size box h box'' h'' := by
  obtain ⟨mm, rfl⟩ := ho.box_eq
  obtain ⟨mm', rfl⟩ := ho'.box_eq
  exact ⟨⟨mm', rfl⟩, ho'.works, fun k hk => (ho'.table k hk).trans (ho.table k hk),
    ho.within.trans ho'.within, ho'.files.trans ho.files⟩

theorem mono {addr' size' : Nat} (ho : Only e r addr' size' box h box' h')
    (hsub : ∀ p, InSpan e.opts.pagesize addr' size' p → InSpan e.opts.pagesize addr size p) :
    Only e r addr size box h box' h' :=
  ⟨ho.box_eq, ho.works, fun k hk => ho.table k fun hin => hk (hsub k hin), ho.within.mono hsub,
    ho.files⟩

theorem of_within (hw : Works e r box) (hwithin : Within e.opts.pagesize addr size h h')
    (hfiles : h'.mem.files = h.mem.files) : Only e r addr size box h box h' :=
  ⟨⟨box.mm, rfl⟩, hw, fun _ _ => rfl, hwithin, hfiles⟩

end Only

theorem Sets.only {entry : Option MapInfo} {box' : LFIBox} {h' : Host} (hw : Works e r box)
    (hacc : r.Accepts addr size) (hset : Sets e r box h addr size entry box' h') :
    Only e r addr size box h box' h' := by
  have hdvd : e.opts.pagesize ∣ addr := hw.region.pagesize ▸ hacc.1
  refine ⟨hset.box_eq, hset.works, fun k hk => ?_, hset.within, hset.files⟩
  rw [hset.table, Table.set, if_neg fun hin => hk ((hw.region.inSpan_iff hdvd).mpr hin)]

/-- A mapping without a source is not made. -/
theorem exists_source_of_mapverify {noVerify : Bool}
    (hok : (mapverify e h addr size prot flags fd off noVerify).1 = true) :
    ∃ src, hostSource e.opts.pagesize flags fd off = some src := by
  rw [← Option.ne_none_iff_exists']
  intro hnone
  have hmap : ∀ prot, (mapmem e h addr size prot flags fd off).1 = false := by
    intro prot
    simp [mapmem, hnone, mmap]
  simp only [mapverify, hmap, Bool.not_false, if_true] at hok
  split_ifs at hok
  rw [hmap] at hok
  cases hok

/-- What an address of a new private mapping shows. -/
structure Shows (e : Engine) (box : LFIBox) (h : Host) (a : Nat) (byte : UInt8)
    (prot : BitVec 32) (entry : MapInfo) : Prop where
  byte : h.mem.read e.opts.pagesize a = byte
  page : h.mem.pages (a / e.opts.pagesize) = some ⟨hostProt e.target prot, .priv⟩
  entry : box.mm.table (a / e.opts.pagesize) = some entry

/-- A private mapping is refused, or it fails and has changed no other page, or it shows its
source. -/
theorem mapat_private (hw : Works e r box) (h : Host) (addr size : Nat)
    (hshared : has flags LFI_MAP_SHARED = false) :
    let u := lfiBoxMapat e box h addr size prot flags fd off
    u = (none, box, h) ∨
      lfiBoxBufvalid box addr size = true ∧ r.Accepts addr size ∧
        Only e r addr size box h u.2.1 u.2.2 ∧
        (u.1 = none ∨
          u.1 = some addr ∧ refuses e prot = false ∧
            ∃ src, hostSource e.opts.pagesize flags fd off = some src ∧
              ∀ a, InSpan e.opts.pagesize addr size (a / e.opts.pagesize) →
                Shows e u.2.1 u.2.2 a (sourceByte h.mem.files addr a src) prot
                  ⟨prot, flags, fd, off⟩) := by
  intro u
  rcases mapat_cases hw h addr size prot flags fd off with
    ⟨heq, -⟩ | ⟨hbuf, hacc, ⟨hok, haddr, hset, hhost⟩ | ⟨-, hnone, hset, -⟩⟩
  · exact .inl heq
  · refine .inr ⟨hbuf, hacc, hset.only hw hacc, .inr ⟨haddr, ?_⟩⟩
    obtain ⟨src, hsrc⟩ := exists_source_of_mapverify hok
    have hpriv : ∀ f off', src ≠ .sharedFile f off' := by
      rintro f off' rfl
      exact absurd hsrc (ExecVerified.hostSource_ne_shared hshared f off')
    have hdvd : e.opts.pagesize ∣ addr := hw.region.pagesize ▸ hacc.1
    obtain ⟨hrefuses, hshow⟩ := mapverify_private hsrc hpriv hdvd hok
    refine ⟨hrefuses, src, hsrc, fun a ha => ?_⟩
    obtain ⟨hsome, hprot⟩ := given_mapverify hok _ ha
    rw [← hhost] at hshow hsome hprot
    obtain ⟨hbyte, hback⟩ := hshow a ha
    rw [unmapped, files_foldl_cbunmap] at hbyte
    refine ⟨hbyte, page_eq_of_given hsome hprot hback, ?_⟩
    change (boxMapatLocked e box h addr size prot flags fd off).2.1.mm.table _ = _
    rw [hset.table, Table.set, if_pos ((hw.region.inSpan_iff hdvd).mp ha)]
  · exact .inr ⟨hbuf, hacc, hset.only hw hacc, .inl hnone⟩

theorem only_mapat (hw : Works e r box) (h : Host) (addr size : Nat) (prot flags : BitVec 32)
    (fd off : Int) :
    let u := boxMapatLocked e box h addr size prot flags fd off
    Only e r addr size box h u.2.1 u.2.2 := by
  intro u
  rcases mapat_cases hw h addr size prot flags fd off with
    ⟨heq, -⟩ | ⟨-, hacc, ⟨-, -, hset, -⟩ | ⟨-, -, hset, -⟩⟩
  · simp only [u, heq]
    exact .refl hw h addr size
  · exact hset.only hw hacc
  · exact hset.only hw hacc

theorem mem_verify (h : Host) (base size : Nat) (prot : BitVec 32) :
    (verify e h base size prot).2.mem = h.mem := by
  simp only [verify]
  split_ifs
  · rfl
  · rfl
  · exact mem_lfivVerify ..

/-- Memory that is there already gets its entry. -/
theorem mapatRegister_ok (hw : Works e r box)
    (hok : (lfiBoxMapatRegister e box h addr size prot flags fd off).1.isSome = true) :
    let u := lfiBoxMapatRegister e box h addr size prot flags fd off
    lfiBoxBufvalid box addr size = true ∧ r.Accepts addr size ∧
      Sets e r box h addr size (some ⟨prot, flags, fd, off⟩) u.2.1 u.2.2 := by
  simp only [lfiBoxMapatRegister] at hok ⊢
  split at hok
  · cases hok
  rename_i hbuf
  rw [if_neg hbuf]
  rcases hw.mapper.mapAt_cases hw.region.fits addr size ⟨prot, flags, fd, off⟩ with
    ⟨mm, heq, hacc, hm, htable, -⟩ | ⟨heq, -⟩
  · simp only [heq] at hok ⊢
    split at hok
    · cases hok
    rename_i hver
    rw [if_neg hver]
    have hmem := mem_verify (e := e) (unmapped e box h addr size) addr size prot
    refine ⟨by simpa using hbuf, hacc, ⟨mm, rfl⟩, hw.with_mm hm, htable, ?_, ?_⟩
    · exact (hw.within_unmapped h addr size).trans (.of_mem hmem)
    · exact (congrArg Memory.files hmem).trans (files_foldl_cbunmap ..)
  · rw [heq] at hok
    cases hok

/-- What a change of protection can do. -/
theorem boxMprotect_cases (hw : Works e r box) (h : Host) (addr size : Nat) (prot : BitVec 32)
    (noVerify : Bool) :
    let u := boxMprotectLocked e box h addr size prot noVerify
    let v := protectverify e h addr size prot noVerify
    Only e r addr size box h u.2.1 u.2.2 ∧
      (u.1 < 0 ∨
        u.1 = 0 ∧ v.1 = true ∧ u.2.2 = v.2 ∧ r.Accepts addr size ∧
          u.2.1.mm.table = box.mm.table.protect (addr / r.pagesize) (r.pages size) prot) := by
  intro u v
  have hb := hw.region
  simp only [u, v, boxMprotectLocked]
  split
  · exact ⟨.refl hw h addr size, .inl (show (-1 : Int) < 0 by decide)⟩
  rename_i hargs
  split
  · exact ⟨.refl hw h addr size, .inl (show (-1 : Int) < 0 by decide)⟩
  rename_i hbuf
  rw [Bool.not_eq_true', Bool.not_eq_false] at hbuf
  have hal : e.opts.pagesize ∣ addr := Nat.dvd_of_mod_eq_zero (by omega)
  have hacc := hb.accepts hbuf (by omega) hal
  have hwithin := within_protectverify (e := e) h addr size prot noVerify
  have hfiles := (sameBytes_protectverify (e := e) h addr size prot noVerify).files
  split
  · exact ⟨.of_within hw hwithin hfiles, .inl (show (-1 : Int) < 0 by decide)⟩
  · rename_i hver
    rw [Bool.not_eq_true', Bool.not_eq_false] at hver
    obtain ⟨mm, pieces, heq, hm, htable⟩ := hw.mapper.protect_ok hb.fits prot hacc
    simp only [heq]
    refine ⟨⟨⟨mm, rfl⟩, hw.with_mm hm, fun k hk => ?_, hwithin, hfiles⟩,
      .inr ⟨trivial, hver, trivial, hacc, htable⟩⟩
    dsimp only
    rw [htable, Table.protect, if_neg fun hin => hk ((hb.inSpan_iff hal).mpr hin)]

/-- What an unmapping can do. With good arguments it is up to the host. -/
theorem boxMunmap_cases (hw : Works e r box) (h : Host) (addr size : Nat) :
    let u := boxMunmapLocked e box h addr size
    Only e r addr size box h u.2.1 u.2.2 ∧
      (u.1 < 0 ∧ u.2.1 = box ∧
          (lfiBoxBufvalid box addr size = true → r.Accepts addr size → outcome h 0 = false) ∨
        u.1 = 0 ∧ u.2.1.mm.table = box.mm.table.set (addr / r.pagesize) (r.pages size) none) := by
  intro u
  have hb := hw.region
  simp only [u, boxMunmapLocked]
  split
  · rename_i hargs
    refine ⟨.refl hw h addr size, .inl ⟨show (-EINVAL : Int) < 0 by decide, rfl, fun hbuf hacc => ?_⟩⟩
    have hal : addr % e.opts.pagesize = 0 := Nat.mod_eq_zero_of_dvd (hb.pagesize ▸ hacc.1)
    have hsize := hacc.2.1
    simp [hbuf, hal] at hargs
    omega
  rename_i hargs
  simp only [Bool.or_eq_true, Bool.not_eq_true', beq_iff_eq, bne_iff_ne, ne_eq, not_or,
    Bool.not_eq_false, not_not] at hargs
  have hal : e.opts.pagesize ∣ addr := Nat.dvd_of_mod_eq_zero hargs.2
  have hacc := hb.accepts hargs.1.1 (Nat.pos_of_ne_zero hargs.1.2) hal
  have hround : (size + e.opts.pagesize - 1) / e.opts.pagesize * e.opts.pagesize =
      r.pages size * r.pagesize := by rw [hb.pagesize, Region.pages]
  have hend := hb.end_le hacc
  have hlen : 0 < r.pages size * r.pagesize := Nat.lt_of_lt_of_le hacc.2.1 hend.2
  have hwithin := (within_mmap e.opts.pagesize h addr (r.pages size * r.pagesize) Prot.none
    (some .anon)).mono fun p hp => (hb.inSpan_pages hacc).mp hp
  have hfiles := files_mmap e.opts.pagesize h addr (r.pages size * r.pagesize) Prot.none (some .anon)
  rw [hround]
  split
  · rename_i hmap
    refine ⟨.of_within hw hwithin hfiles,
      .inl ⟨show (-ENOMEM : Int) < 0 by decide, rfl, fun _ _ => ?_⟩⟩
    rw [mmap_eq hargs.2 hlen hend.1.le] at hmap
    simpa [mmapOk] using hmap
  · obtain ⟨mm, pieces, heq, hm, htable⟩ := hw.mapper.unmap_ok hb.fits hacc
    simp only [heq]
    refine ⟨⟨⟨mm, rfl⟩, hw.with_mm hm, fun k hk => ?_, hwithin, hfiles⟩, .inr ⟨trivial, htable⟩⟩
    dsimp only
    rw [htable, Table.set, if_neg fun hin => hk ((hb.inSpan_iff hal).mpr hin)]

/-- A change of protection that succeeds changes nothing else. -/
theorem shows_mprotect (hw : Works e r box) {prot' : BitVec 32}
    (hok : 0 ≤ (lfiBoxMprotect e box h addr size prot).1) :
    let u := lfiBoxMprotect e box h addr size prot
    refuses e prot = false ∧
      ∀ a byte entry, InSpan e.opts.pagesize addr size (a / e.opts.pagesize) →
        Shows e box h a byte prot' entry →
          Shows e u.2.1 u.2.2 a byte prot { entry with prot := prot } := by
  intro u
  obtain ⟨-, hneg | ⟨-, hver, hhost, hacc, htable⟩⟩ :=
    boxMprotect_cases hw h addr size prot false
  · exact absurd hok (not_le.mpr hneg)
  refine ⟨refuses_of_protectverify hver, fun a byte entry ha hshows => ?_⟩
  have hsame := sameBytes_protectverify (e := e) h addr size prot false
  have hsome : (h.mem.pages (a / e.opts.pagesize)).isSome := by
    rw [hshows.page]
    rfl
  have hback : h.mem.backing (a / e.opts.pagesize) = .priv := by
    rw [Memory.backing, hshows.page]
  rw [← isSome_protectverify h addr size prot false] at hsome
  rw [← hsame.backing] at hback
  have hprot := prot_protectverify hver ha (isSome_protectverify h addr size prot false _ ▸ hsome)
  have hread : _ = h.mem.read e.opts.pagesize a := hsame.read a
  rw [← hhost] at hsome hback hprot hread
  have hdvd : e.opts.pagesize ∣ addr := hw.region.pagesize ▸ hacc.1
  refine ⟨hread.trans hshows.byte, page_eq_of_given hsome hprot hback, ?_⟩
  change (boxMprotectLocked e box h addr size prot false).2.1.mm.table _ = _
  rw [htable, Table.protect, if_pos ((hw.region.inSpan_iff hdvd).mp ha), hshows.entry]
  rfl

end LfiRuntime.Box
