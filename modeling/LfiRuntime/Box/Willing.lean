import LfiRuntime.Box.MapSpec

/-!
The operations of a box on a host that fails no call: what they need for success.
-/

namespace LfiRuntime.Box

open LfiRuntime.PagedMemory
open LfiRuntime.Config
open LfiRuntime.HostCalls
open LfiRuntime.Mmap

/-- No call of the host will fail. -/
def Willing (h : Host) : Prop := h.outcomes = []

variable {e : Engine} {r : Region} {box : LFIBox} {h : Host} {addr size : Nat}
  {prot flags : BitVec 32} {fd off : Int}

namespace Willing

variable (hh : Willing h)

include hh

theorem outcome (i : Nat) : outcome h i = true := by
  rw [Box.outcome, result, show h.outcomes = [] from hh]
  rfl

theorem next : (next h).isOk = true := by
  rw [HostCalls.next, show h.outcomes = [] from hh]
  rfl

theorem used (m : Memory) : Willing (used h m) := by
  rw [Willing, outcomes_used, show h.outcomes = [] from hh]
  rfl

theorem mmap (ps start len : Nat) (pr : Prot) (src : Option Source) :
    Willing (mmap ps h start len pr src).2 := by
  rcases mmap_cases ps h start len pr src with ⟨s, -, -, -, -, heq⟩ | ⟨-, n, -, heq⟩ | heq
  · rw [heq]
    exact hh.used _
  · rw [heq]
    exact hh.used _
  · rw [heq]
    exact hh.used _

theorem mprotect (ps start len : Nat) (pr : Prot) : Willing (mprotect ps h start len pr).2 := by
  rcases mprotect_cases ps h start len pr with ⟨-, -, heq⟩ | ⟨-, n, -, heq⟩ | heq
  · rw [heq]
    exact hh.used _
  · rw [heq]
    exact hh.used _
  · rw [heq]
    exact hh.used _

theorem munmap (ps start len : Nat) : Willing (munmap ps h start len).2 := by
  rcases munmap_cases ps h start len with ⟨-, n, -, heq⟩ | heq
  · rw [heq]
    exact hh.used _
  · rw [heq]
    exact hh.used _

theorem lfivVerify (ps base size : Nat) : Willing (lfivVerify ps e h base size).2 := by
  rcases lfivVerify_cases ps e h base size with ⟨-, heq⟩ | ⟨-, heq⟩
  · rw [heq]
    exact hh
  · rw [heq]
    exact hh

theorem mapmem (start size : Nat) (prot flags : BitVec 32) (fd off : Int) :
    Willing (mapmem e h start size prot flags fd off).2 := by
  have hmap := hh.mmap e.opts.pagesize start size (hostProt e.target prot)
    (hostSource e.opts.pagesize flags fd off)
  simp only [Box.mapmem]
  split_ifs
  · exact hmap
  · exact (hmap.mprotect ..).munmap ..
  · exact hmap.mprotect ..
  · exact hmap

theorem mapverify (start size : Nat) (prot flags : BitVec 32) (fd off : Int) (noVerify : Bool) :
    Willing (mapverify e h start size prot flags fd off noVerify).2 := by
  have hmap := hh.mapmem (e := e) start size LFI_PROT_READ flags fd off
  simp only [Box.mapverify]
  split_ifs
  · exact hh.mapmem ..
  · exact hh
  · exact hmap
  · exact hmap.lfivVerify ..
  · exact (hmap.lfivVerify ..).mprotect ..

theorem protectverify (start size : Nat) (prot : BitVec 32) (noVerify : Bool) :
    Willing (protectverify e h start size prot noVerify).2 := by
  simp only [Box.protectverify]
  split_ifs
  · exact hh.mprotect ..
  · exact hh
  · exact (hh.mprotect ..).lfivVerify ..
  · exact ((hh.mprotect ..).lfivVerify ..).mprotect ..

theorem foldl_cbunmap (pieces : List Piece) : Willing (pieces.foldl (cbunmap e) h) := by
  induction pieces generalizing h with
  | nil => exact hh
  | cons piece pieces ih =>
      refine ih ?_
      simp only [cbunmap]
      split_ifs
      · exact hh.mmap ..
      · exact (hh.mmap ..).mprotect ..

theorem mapat (box : LFIBox) (addr size : Nat) (prot flags : BitVec 32) (fd off : Int) :
    Willing (lfiBoxMapat e box h addr size prot flags fd off).2.2 := by
  simp only [lfiBoxMapat, boxMapatLocked]
  split
  · exact hh
  · split
    · exact hh
    · split
      · exact ((hh.foldl_cbunmap _).mapverify ..).foldl_cbunmap _
      · exact (hh.foldl_cbunmap _).mapverify ..

theorem boxMprotect (box : LFIBox) (addr size : Nat) (prot : BitVec 32) :
    Willing (lfiBoxMprotect e box h addr size prot).2.2 := by
  have hprotect := hh.protectverify (e := e) addr size prot false
  simp only [lfiBoxMprotect, boxMprotectLocked]
  split_ifs
  · exact hh
  · exact hh
  · exact hprotect
  · split <;> exact hprotect

/-! Success. -/

theorem mapmem_iff (hal : addr % e.opts.pagesize = 0) (hsize : 0 < size)
    (hend : addr + size ≤ 2 ^ 64) :
    (Box.mapmem e h addr size prot flags fd off).1 = true ↔
      (hostSource e.opts.pagesize flags fd off).isSome = true := by
  rw [mapmem_eq hal hsize hend, mmapOk, hh.outcome, hh.outcome, Bool.true_and]
  split
  · rename_i hsrc
    split <;> simp [hsrc]
  · rename_i hsrc
    simp [hsrc]

theorem mapverify_iff (hal : addr % e.opts.pagesize = 0) (hsize : 0 < size)
    (hend : addr + size ≤ 2 ^ 64) :
    (Box.mapverify e h addr size prot flags fd off false).1 = true ↔
      refuses e prot = false ∧ ∃ src, hostSource e.opts.pagesize flags fd off = some src ∧
        (consults e prot = true → accepts e h addr size src = true) := by
  simp only [Box.mapverify]
  split
  · rename_i hskip
    obtain ⟨hcons, href⟩ := skipsVerifier_eq_true_iff.mp hskip
    rw [hh.mapmem_iff hal hsize hend, Option.isSome_iff_exists]
    simp [hcons, href]
  rename_i hskip
  split
  · rename_i hwx
    have href := refuses_of_not_skips hskip hwx
    simp [href]
  rename_i hwx
  obtain ⟨hcons, href⟩ := consults_of_not_skips hskip hwx
  simp only [hcons, href, true_and, true_implies]
  split
  · rename_i hmap
    refine iff_of_false (by simp) ?_
    rintro ⟨src, hsrc, -⟩
    have hok := (@mapmem_iff _ _ _ _ LFI_PROT_READ _ _ _ hh hal hsize hend).mpr
      (Option.isSome_iff_exists.mpr ⟨src, hsrc⟩)
    rw [hok] at hmap
    cases hmap
  rename_i hmap
  have hok : (Box.mapmem e h addr size LFI_PROT_READ flags fd off).1 = true := by simpa using hmap
  obtain ⟨src, hsrc⟩ := Option.isSome_iff_exists.mp ((hh.mapmem_iff hal hsize hend).mp hok)
  obtain ⟨-, -, -, hbytes⟩ := mapmem_ok hal hsize hend hok
  rw [hostProt_read, hsrc] at hbytes
  have hacc : (∃ src, hostSource e.opts.pagesize flags fd off = some src ∧
      accepts e h addr size (some src) = true) ↔
        e.lfivVerify addr ((Box.mapmem e h addr size LFI_PROT_READ flags fd off).2.mem.readRange
          e.opts.pagesize addr size) = true := by
    rw [hbytes]
    constructor
    · rintro ⟨src', hsrc', haccepts⟩
      obtain rfl := Option.some.inj (hsrc.symm.trans hsrc')
      exact haccepts
    · exact fun haccepts => ⟨src, hsrc, haccepts⟩
  rw [hacc]
  have hwilling := hh.mapmem (e := e) addr size LFI_PROT_READ flags fd off
  generalize Box.mapmem e h addr size LFI_PROT_READ flags fd off = m at hwilling ⊢
  rcases lfivVerify_cases e.opts.pagesize e m.2 addr size with ⟨htrue, heq⟩ | ⟨hfalse, heq⟩
  · rw [heq, htrue]
    have hprotect := @mprotect_ok e.opts.pagesize
      { m.2 with verified := (addr, m.2.mem.readRange e.opts.pagesize addr size) :: m.2.verified }
      addr size (hostProt e.target prot) (next hwilling) hal
    simp only [Bool.not_true, Bool.false_eq_true, if_false, protectmem, hprotect]
  · rw [heq, hfalse]
    simp

theorem protectverify_iff (hal : addr % e.opts.pagesize = 0) :
    (Box.protectverify e h addr size prot false).1 = true ↔
      refuses e prot = false ∧ (consults e prot = true →
        e.lfivVerify addr (h.mem.readRange e.opts.pagesize addr size) = true) := by
  have hprotect : ∀ {h' : Host} (_ : Willing h') pr,
      HostCalls.mprotect e.opts.pagesize h' addr size pr =
        (true, HostCalls.used h' (h'.mem.mprotect e.opts.pagesize addr size pr)) := by
    intro h' hh' pr
    exact mprotect_ok hh'.next hal
  simp only [Box.protectverify]
  split
  · rename_i hskip
    obtain ⟨hcons, href⟩ := skipsVerifier_eq_true_iff.mp hskip
    simp [protectmem, hprotect hh, hcons, href]
  rename_i hskip
  split
  · rename_i hwx
    have href := refuses_of_not_skips hskip hwx
    simp [href]
  rename_i hwx
  obtain ⟨hcons, href⟩ := consults_of_not_skips hskip hwx
  simp only [hcons, href, true_and, true_implies, protectmem, hprotect hh]
  have hused := hh.used (h.mem.mprotect e.opts.pagesize addr size Prot.readOnly)
  have hbytes :
      (HostCalls.used h (h.mem.mprotect e.opts.pagesize addr size Prot.readOnly)).mem.readRange
        e.opts.pagesize addr size = h.mem.readRange e.opts.pagesize addr size :=
    Memory.readRange_mprotect ..
  generalize HostCalls.used h (h.mem.mprotect e.opts.pagesize addr size Prot.readOnly) = h₁
    at hused hbytes ⊢
  rcases lfivVerify_cases e.opts.pagesize e h₁ addr size with ⟨htrue, heq⟩ | ⟨hfalse, heq⟩
  · rw [hbytes] at htrue
    have hwilling : Willing { h₁ with
        verified := (addr, h₁.mem.readRange e.opts.pagesize addr size) :: h₁.verified } := hused
    simp [heq, htrue, hprotect hwilling]
  · rw [hbytes] at hfalse
    simp [heq, hfalse]

end Willing

/-- What the verifier is shown of a private mapping. -/
theorem accepts_private {src : Source} (hps : 0 < e.opts.pagesize)
    (hsrc : hostSource e.opts.pagesize flags fd off = some src)
    (hpriv : ∀ f off, src ≠ .sharedFile f off) (hal : e.opts.pagesize ∣ addr) :
    accepts e h addr size (some src) =
      e.lfivVerify addr
        ((List.range size).map fun i => sourceByte h.mem.files addr (addr + i) src) := by
  rw [accepts]
  refine congrArg (e.lfivVerify addr) (List.map_congr_left fun i hi => ?_)
  exact read_mmapFixed hsrc hpriv hal (inSpan_of_mem hps (Nat.le_add_right addr i)
    (Nat.add_lt_add_left (List.mem_range.mp hi) addr))

/-- A private mapping is made exactly if its range is one of the box's, its protection is not
refused, it has a source, and the verifier takes what it shows, where it is asked. -/
theorem mapat_isSome_iff (hw : Works e r box) (hh : Willing h)
    (hshared : has flags LFI_MAP_SHARED = false) :
    (lfiBoxMapat e box h addr size prot flags fd off).1.isSome = true ↔
      lfiBoxBufvalid box addr size = true ∧ r.Accepts addr size ∧ refuses e prot = false ∧
        ∃ src, hostSource e.opts.pagesize flags fd off = some src ∧
          (consults e prot = true → e.lfivVerify addr ((List.range size).map fun i =>
            sourceByte h.mem.files addr (addr + i) src) = true) := by
  have hb := hw.region
  have hps : 0 < e.opts.pagesize := hb.pagesize ▸ r.pagesize_pos
  have hver : r.Accepts addr size →
      ((mapverify e (unmapped e box h addr size) addr size prot flags fd off false).1 = true ↔
        refuses e prot = false ∧ ∃ src, hostSource e.opts.pagesize flags fd off = some src ∧
          (consults e prot = true → e.lfivVerify addr ((List.range size).map fun i =>
            sourceByte h.mem.files addr (addr + i) src) = true)) := by
    intro hacc
    obtain ⟨hend, hle⟩ := hb.end_le hacc
    have hunmapped : Willing (unmapped e box h addr size) := hh.foldl_cbunmap _
    have hal : e.opts.pagesize ∣ addr := hb.pagesize ▸ hacc.1
    rw [hunmapped.mapverify_iff (Nat.mod_eq_zero_of_dvd hal) hacc.2.1 (by omega)]
    refine and_congr_right fun _ => exists_congr fun src => and_congr_right fun hsrc => ?_
    have hpriv : ∀ f off', src ≠ .sharedFile f off' := by
      rintro f off' rfl
      exact absurd hsrc (ExecVerified.hostSource_ne_shared hshared f off')
    rw [accepts_private hps hsrc hpriv hal, unmapped, files_foldl_cbunmap]
  rcases mapat_cases hw h addr size prot flags fd off with
    ⟨heq, hno⟩ | ⟨hbuf, hacc, ⟨hok, haddr, -, -⟩ | ⟨hfail, hnone, -⟩⟩
  · rw [lfiBoxMapat, heq]
    exact iff_of_false (by simp) fun hand => hno ⟨hand.1, hand.2.1⟩
  · rw [lfiBoxMapat, haddr]
    exact iff_of_true rfl ⟨hbuf, hacc, (hver hacc).mp hok⟩
  · rw [lfiBoxMapat, hnone]
    refine iff_of_false (by simp) fun hand => ?_
    rw [(hver hacc).mpr hand.2.2] at hfail
    cases hfail

/-- A change of protection is made exactly if the range is one of whole pages of the box, and
the verifier takes what it shows, where it is asked. -/
theorem boxMprotect_iff (hw : Works e r box) (hh : Willing h) (hsize : 0 < size)
    (haddr : e.opts.pagesize ∣ addr) (hlen : e.opts.pagesize ∣ size)
    (hbuf : lfiBoxBufvalid box addr size = true) :
    0 ≤ (lfiBoxMprotect e box h addr size prot).1 ↔
      refuses e prot = false ∧ (consults e prot = true →
        e.lfivVerify addr (h.mem.readRange e.opts.pagesize addr size) = true) := by
  have hb := hw.region
  rw [← hh.protectverify_iff (Nat.mod_eq_zero_of_dvd haddr)]
  have hargs : ¬(size = 0 ∨ addr % e.opts.pagesize ≠ 0 ∨ size % e.opts.pagesize ≠ 0) := by
    rw [Nat.mod_eq_zero_of_dvd haddr, Nat.mod_eq_zero_of_dvd hlen]
    omega
  have hneg : ¬(0 : Int) ≤ -1 := by decide
  simp only [lfiBoxMprotect, boxMprotectLocked, if_neg hargs, hbuf, Bool.not_true,
    Bool.false_eq_true, if_false]
  split
  · rename_i hver
    rw [Bool.not_eq_true'] at hver
    rw [hver]
    exact iff_of_false hneg (by simp)
  · rename_i hver
    rw [Bool.not_eq_true', Bool.not_eq_false] at hver
    obtain ⟨mm, pieces, heq, -, -⟩ := hw.mapper.protect_ok hb.fits prot (hb.accepts hbuf hsize haddr)
    simp only [heq]
    exact iff_of_true le_rfl hver

end LfiRuntime.Box
