import LfiRuntime.Box.Agreement

/-!
What a memory operation that fails leaves behind, by the outcomes of the host
calls it made.
-/

namespace LfiRuntime.Box

open LfiRuntime.PagedMemory
open LfiRuntime.Config
open LfiRuntime.HostCalls
open LfiRuntime.Mmap
open LfiRuntime.RangeMap

/-- Both records are as before, and no page that was mapped has been lost. -/
structure Unchanged (e : Engine) (s t : State) : Prop where
  mquery : ∀ addr, s.box.min ≤ addr → addr < s.box.max →
    lfiBoxMquery t.box addr = lfiBoxMquery s.box addr
  prot : ∀ addr, s.box.min ≤ addr → addr < s.box.max →
    t.host.mem.prot (addr / e.opts.pagesize) = s.host.mem.prot (addr / e.opts.pagesize)
  mapped : ∀ addr, s.box.min ≤ addr → addr < s.box.max →
    (s.host.mem.pages (addr / e.opts.pagesize)).isSome →
      (t.host.mem.pages (addr / e.opts.pagesize)).isSome
  kept : ∀ addr, s.box.min ≤ addr → addr < s.box.max → (lfiBoxMquery s.box addr).isSome →
    (s.host.mem.pages (addr / e.opts.pagesize)).isSome →
      t.host.mem.pages (addr / e.opts.pagesize) = s.host.mem.pages (addr / e.opts.pagesize) ∧
        t.host.mem.read e.opts.pagesize addr = s.host.mem.read e.opts.pagesize addr

/-- The verifier is asked about memory of this protection. -/
def consults (e : Engine) (prot : BitVec 32) : Bool :=
  has prot LFI_PROT_EXEC && !has prot LFI_PROT_WRITE && !e.opts.noVerify

/-- The protection is refused as it stands. -/
def refuses (e : Engine) (prot : BitVec 32) : Bool :=
  has prot LFI_PROT_EXEC && has prot LFI_PROT_WRITE && !(e.opts.allowWx && e.opts.noVerify)

/-- The protection a new mapping has before the verifier has seen it. -/
def firstProt (e : Engine) (prot : BitVec 32) : BitVec 32 :=
  if consults e prot then LFI_PROT_READ else prot

/-- What the verifier says of a new mapping. -/
def accepts (e : Engine) (h : Host) (addr size : Nat) (src : Option Source) : Bool :=
  let ps := e.opts.pagesize
  e.lfivVerify addr
    ((h.mem.mmapFixed ps addr size Prot.readOnly (src.getD .anon)).readRange ps addr size)

/-- Page `p` is not what it was when the undo of a new mapping is through, whose
first host call is the one with index `i`. That call fails, and the page is
unmapped then (it was before the undo where `gone` says so), or still accessible
(it was before the undo where `opened` says so). -/
def Left (e : Engine) (h : Host) (addr i : Nat) (gone opened : Prop) (p : Nat) : Prop :=
  let ps := e.opts.pagesize
  outcome h i = false ∧
    ((gone ∨ ReachesPage ps h i addr p) ∧ (h.mem.pages p).isSome ∨
      ¬(gone ∨ ReachesPage ps h i addr p) ∧ opened ∧ ¬ReachesPage ps h (i + 1) addr p)

/-- A new mapping fails, and page `p` of it is not taken back. -/
def Stuck (e : Engine) (h : Host) (addr size : Nat) (prot flags : BitVec 32) (fd off : Int)
    (p : Nat) : Prop :=
  let ps := e.opts.pagesize
  let src := hostSource ps flags fd off
  let next := if e.target.pku then 2 else 1
  if refuses e prot then Left e h addr 0 False False p
  else if mmapOk h src = false then
    Left e h addr 1 (src.isSome ∧ ReachesPage ps h 0 addr p) False p
  else if e.target.pku ∧ outcome h 1 = false then
    Left e h addr 3 (ReachesPage ps h 2 addr p)
      (hostProt e.target (firstProt e prot) ≠ Prot.none) p
  else
    consults e prot = true ∧
      Left e h addr (if accepts e h addr size src then next + 1 else next) False True p

variable {e : Engine} {h h' : Host} {addr size start p : Nat} {prot flags : BitVec 32}
  {fd off : Int}

theorem skipsVerifier_eq_true_iff :
    skipsVerifier e prot (false || e.opts.noVerify) = true ↔
      consults e prot = false ∧ refuses e prot = false := by
  simp only [skipsVerifier, consults, refuses]
  cases has prot LFI_PROT_EXEC <;> cases has prot LFI_PROT_WRITE <;>
    cases e.opts.noVerify <;> cases e.opts.allowWx <;> decide

theorem refuses_of_not_skips (hskip : ¬skipsVerifier e prot (false || e.opts.noVerify) = true)
    (hwx : (has prot LFI_PROT_WRITE && has prot LFI_PROT_EXEC) = true) : refuses e prot = true := by
  revert hskip hwx
  simp only [skipsVerifier, refuses]
  cases has prot LFI_PROT_EXEC <;> cases has prot LFI_PROT_WRITE <;>
    cases e.opts.noVerify <;> cases e.opts.allowWx <;> decide

theorem consults_of_not_skips (hskip : ¬skipsVerifier e prot (false || e.opts.noVerify) = true)
    (hwx : ¬(has prot LFI_PROT_WRITE && has prot LFI_PROT_EXEC) = true) :
    consults e prot = true ∧ refuses e prot = false := by
  revert hskip hwx
  simp only [skipsVerifier, consults, refuses]
  cases has prot LFI_PROT_EXEC <;> cases has prot LFI_PROT_WRITE <;>
    cases e.opts.noVerify <;> cases e.opts.allowWx <;> decide

theorem hostProt_read (t : Target) : hostProt t LFI_PROT_READ = Prot.readOnly := by
  have hbti : has LFI_PROT_READ LFI_PROT_BTI = false := by decide
  rw [hostProt, hbti, Bool.and_false]
  rfl

/-! Mappings. -/

/-- `mapmem`, by the outcomes of its host calls. -/
theorem mapmem_eq (hal : addr % e.opts.pagesize = 0) (hsize : 0 < size)
    (hend : addr + size ≤ 2 ^ 64) :
    let ps := e.opts.pagesize
    let pr := hostProt e.target prot
    let src := hostSource ps flags fd off
    let m := mmapMem ps h addr size pr src
    mapmem e h addr size prot flags fd off =
      if mmapOk h src then
        if e.target.pku then
          let k := m.mprotect ps addr ((result h 1).extent ps size) pr
          if outcome h 1 then (true, used (used h m) k)
          else (false, used (used (used h m) k) (k.munmap ps addr ((result h 2).extent ps size)))
        else (true, used h m)
      else (false, used h m) := by
  intro ps pr src m
  simp only [mapmem]
  rw [mmap_eq hal hsize hend]
  cases hmap : mmapOk h src with
  | false => simp [m, src, pr, ps]
  | true =>
      simp only
      rw [mprotect_eq hal, outcome_tail, result_tail]
      cases outcome h 1 with
      | true => simp [m, src, pr, ps]
      | false =>
          rw [munmap_eq hal hsize]
          simp [result_tail, m, src, pr, ps]

/-! One page of the range. -/

section

variable (hal : addr % e.opts.pagesize = 0) (hp : InSpan e.opts.pagesize addr size p)

include hal hp

theorem pages_munmap_extent (m : Memory) (h : Host) (i : Nat) :
    (m.munmap e.opts.pagesize addr ((result h i).extent e.opts.pagesize size)).pages p =
      if ReachesPage e.opts.pagesize h i addr p then none else m.pages p := by
  simp only [Memory.munmap, inSpan_extent_iff hal, hp, true_and]

theorem pages_mprotect_extent (m : Memory) (h : Host) (i : Nat) (pr : Prot) :
    (m.mprotect e.opts.pagesize addr ((result h i).extent e.opts.pagesize size) pr).pages p =
      if ReachesPage e.opts.pagesize h i addr p then (m.pages p).map fun pg => { pg with prot := pr }
      else m.pages p := by
  simp only [Memory.mprotect, inSpan_extent_iff hal, hp, true_and]

omit hal in
theorem pages_mmapFixed (m : Memory) (pr : Prot) (src : Source) :
    ∃ b, (m.mmapFixed e.opts.pagesize addr size pr src).pages p = some ⟨pr, b⟩ := by
  cases src <;> simp [Memory.mmapFixed, hp]

/-- What a failed mapping leaves of a page and of the host calls to come. -/
theorem mapmem_fail (hsize : 0 < size) (hend : addr + size ≤ 2 ^ 64)
    (hfail : (mapmem e h addr size prot flags fd off).1 = false) :
    let ps := e.opts.pagesize
    let src := hostSource ps flags fd off
    let h' := (mapmem e h addr size prot flags fd off).2
    (mmapOk h src = false ∧ (∀ i, result h' i = result h (i + 1)) ∧
        h'.mem.pages p =
          if src.isSome ∧ ReachesPage ps h 0 addr p then none else h.mem.pages p) ∨
      mmapOk h src = true ∧ e.target.pku = true ∧ outcome h 1 = false ∧
        (∀ i, result h' i = result h (i + 3)) ∧
        ∃ b, h'.mem.pages p =
          if ReachesPage ps h 2 addr p then none else some ⟨hostProt e.target prot, b⟩ := by
  intro ps src h'
  simp only [h']
  rw [mapmem_eq hal hsize hend] at hfail ⊢
  split at hfail
  · rename_i hmap
    rw [if_pos hmap]
    split at hfail
    · rename_i hpku
      rw [if_pos hpku]
      split at hfail
      · cases hfail
      · rename_i hkey
        rw [if_neg hkey, mmapMem_ok hmap]
        obtain ⟨b, hpage⟩ := pages_mmapFixed hp h.mem (hostProt e.target prot)
          ((hostSource e.opts.pagesize flags fd off).getD .anon)
        refine .inr ⟨hmap, hpku, by simpa using hkey, fun i => by simp only [result_tail], b, ?_⟩
        rw [mem_used, pages_munmap_extent hal hp, pages_mprotect_extent hal hp, hpage,
          Option.map_some, ite_self]
    · cases hfail
  · rename_i hmap
    rw [if_neg hmap]
    refine .inl ⟨by simpa using hmap, fun i => result_tail .., ?_⟩
    rw [mem_used]
    cases hsrc : hostSource e.opts.pagesize flags fd off with
    | none => simp [mmapMem, src, ps, hsrc]
    | some s =>
        have hfirst : outcome h 0 = false := by simpa [mmapOk, hsrc] using hmap
        simp only [mmapMem, src, ps, hsrc, hfirst, Bool.false_eq_true, if_false,
          pages_munmap_extent hal hp, Option.isSome_some, true_and]

end

/-- What a mapping that succeeds leaves of the host calls to come, and the
bytes it shows. -/
theorem mapmem_ok (hal : addr % e.opts.pagesize = 0) (hsize : 0 < size)
    (hend : addr + size ≤ 2 ^ 64) (hok : (mapmem e h addr size prot flags fd off).1 = true) :
    let ps := e.opts.pagesize
    let src := hostSource ps flags fd off
    let h' := (mapmem e h addr size prot flags fd off).2
    mmapOk h src = true ∧ (e.target.pku = true → outcome h 1 = true) ∧
      (∀ i, result h' i = result h (i + if e.target.pku then 2 else 1)) ∧
      h'.mem.readRange ps addr size =
        (h.mem.mmapFixed ps addr size (hostProt e.target prot) (src.getD .anon)).readRange ps
          addr size := by
  intro ps src h'
  simp only [h', ps, src]
  rw [mapmem_eq hal hsize hend] at hok ⊢
  split at hok
  · rename_i hmap
    rw [if_pos hmap, mmapMem_ok hmap]
    split at hok
    · rename_i hpku
      rw [if_pos hpku]
      split at hok
      · rename_i hkey
        rw [if_pos hkey]
        refine ⟨hmap, fun _ => hkey, fun i => ?_, ?_⟩
        · simp [hpku, result_tail]
        · simp only [Memory.readRange, mem_used, Memory.read_mprotect]
      · cases hok
    · rename_i hpku
      rw [if_neg hpku]
      exact ⟨hmap, fun hc => absurd hc hpku, fun i => by simp [hpku, result_tail], rfl⟩
  · cases hok

/-! The undo. -/

/-- The page is without access, and there if it was. -/
def Sealed (h h' : Host) (p : Nat) : Prop :=
  h'.mem.prot p = Prot.none ∧ ((h.mem.pages p).isSome → (h'.mem.pages p).isSome)

theorem reachesPage_shift {ps i j : Nat} (hresult : result h' j = result h i) :
    ReachesPage ps h' j start p ↔ ReachesPage ps h i start p := by
  rw [ReachesPage, hresult, ReachesPage]

/-- `cbunmap` takes the page back, unless its host calls, with the index `i` in
the host that the call began in, leave it. -/
theorem sealed_cbunmap_iff {piece : Piece} {i : Nat} (hal : piece.start % e.opts.pagesize = 0)
    (hlen : 0 < piece.len) (hend : piece.start + piece.len ≤ 2 ^ 64)
    (hp : InSpan e.opts.pagesize piece.start piece.len p)
    (hresult : ∀ j, result h' j = result h (j + i)) :
    Sealed h (cbunmap e h' piece) p ↔
      ¬Left e h piece.start i (h'.mem.pages p = none) (h'.mem.prot p ≠ Prot.none) p := by
  have hfirst : outcome h' 0 = outcome h i := by rw [outcome, hresult, Nat.zero_add, outcome]
  have hreach : ReachesPage e.opts.pagesize h' 0 piece.start p ↔
      ReachesPage e.opts.pagesize h i piece.start p := by
    rw [reachesPage_shift (hresult 0), Nat.zero_add]
  have hreach' : ReachesPage e.opts.pagesize h' 1 piece.start p ↔
      ReachesPage e.opts.pagesize h (i + 1) piece.start p := by
    rw [reachesPage_shift (hresult 1), Nat.add_comm]
  rw [cbunmap, mmap_eq hal hlen hend, mmapOk, Option.isSome_some, Bool.and_true, mmapMem, Left,
    ← hfirst, ← hreach, ← hreach']
  cases h0 : outcome h' 0 with
  | true =>
      obtain ⟨b, hpage⟩ := pages_mmapFixed hp h'.mem Prot.none .anon
      simp [Sealed, Memory.prot, hpage]
  | false =>
      simp only [Bool.false_eq_true, if_false]
      rw [mprotect_eq hal, result_tail]
      simp only [Sealed, Memory.prot, mem_used, pages_mprotect_extent hal hp,
        pages_munmap_extent hal hp]
      cases hpage : h'.mem.pages p with
      | none => by_cases hr : ReachesPage e.opts.pagesize h' 0 piece.start p <;> simp [hr]
      | some pg =>
          by_cases hr : ReachesPage e.opts.pagesize h' 0 piece.start p
          · simp [hr]
          · by_cases hr' : ReachesPage e.opts.pagesize h' (0 + 1) piece.start p <;>
              simp [hr, hr']

theorem hostProt_ne_none_of_consults (hcons : consults e prot = true) :
    hostProt e.target prot ≠ Prot.none := by
  simp only [consults, Bool.and_eq_true] at hcons
  intro hnone
  have hexec : (hostProt e.target prot).exec = has prot LFI_PROT_EXEC := rfl
  rw [hnone, hcons.1.1] at hexec
  cases hexec

section

variable (hal : addr % e.opts.pagesize = 0) (hsize : 0 < size) (hend : addr + size ≤ 2 ^ 64)
  (hp : InSpan e.opts.pagesize addr size p) (hnone : h.mem.prot p = Prot.none)

include hal hsize hend hp hnone

theorem left_mapmem_iff (flags : BitVec 32) (fd off : Int) (href : refuses e prot = false)
    (hfail : (mapmem e h addr size (firstProt e prot) flags fd off).1 = false) :
    let h' := (mapmem e h addr size (firstProt e prot) flags fd off).2
    ∃ i, (∀ j, result h' j = result h (j + i)) ∧
      (Left e h addr i (h'.mem.pages p = none) (h'.mem.prot p ≠ Prot.none) p ↔
        Stuck e h addr size prot flags fd off p) := by
  intro h'
  rcases mapmem_fail hal hp hsize hend hfail with
    ⟨hmap, hresult, hpage⟩ | ⟨hmap, hpku, hkey, hresult, b, hpage⟩
  · refine ⟨1, hresult, ?_⟩
    have hprot : h'.mem.prot p = Prot.none := by
      rw [Memory.prot, show h'.mem.pages p = _ from hpage]
      split
      · rename_i heq
        split at heq
        · cases heq
        · rw [← hnone, Memory.prot, heq]
      · rfl
    simp only [Stuck, href, hmap, Left, hprot, show h'.mem.pages p = _ from hpage]
    by_cases hr : (hostSource e.opts.pagesize flags fd off).isSome ∧
        ReachesPage e.opts.pagesize h 0 addr p
    · simp [hr]
    · cases hpage' : h.mem.pages p <;> simp [hr]
  · refine ⟨3, hresult, ?_⟩
    simp only [Stuck, href, hmap, hpku, hkey, Left, Memory.prot, show h'.mem.pages p = _ from hpage]
    by_cases hr : ReachesPage e.opts.pagesize h 2 addr p <;> simp [hr]

/-- A mapping that fails leaves a page that is not taken back exactly when it is
stuck. -/
theorem left_mapverify_iff
    (hfail : (mapverify e h addr size prot flags fd off false).1 = false) :
    let h' := (mapverify e h addr size prot flags fd off false).2
    ∃ i, (∀ j, result h' j = result h (j + i)) ∧
      (Left e h addr i (h'.mem.pages p = none) (h'.mem.prot p ≠ Prot.none) p ↔
        Stuck e h addr size prot flags fd off p) := by
  simp only [mapverify] at hfail ⊢
  split at hfail
  · rename_i hskip
    obtain ⟨hcons, href⟩ := skipsVerifier_eq_true_iff.mp hskip
    have hfirst : firstProt e prot = prot := by rw [firstProt, hcons]; rfl
    rw [if_pos hskip]
    have hiff := left_mapmem_iff hal hsize hend hp hnone flags fd off href
    rw [hfirst] at hiff
    exact hiff hfail
  rename_i hskip
  rw [if_neg hskip]
  split at hfail
  · rename_i hwx
    rw [if_pos hwx]
    have href := refuses_of_not_skips hskip hwx
    refine ⟨0, fun _ => rfl, ?_⟩
    simp only [Stuck, href, if_true, Left, hnone]
    cases hpage : h.mem.pages p <;> simp
  rename_i hwx
  rw [if_neg hwx]
  obtain ⟨hcons, href⟩ := consults_of_not_skips hskip hwx
  have hfirst : firstProt e prot = LFI_PROT_READ := by rw [firstProt, hcons]; rfl
  split at hfail
  · rename_i hmap
    rw [if_pos hmap]
    have hiff := left_mapmem_iff hal hsize hend hp hnone flags fd off href
    rw [hfirst] at hiff
    exact hiff (by simpa using hmap)
  · rename_i hmap
    rw [if_neg hmap]
    have hok : (mapmem e h addr size LFI_PROT_READ flags fd off).1 = true := by simpa using hmap
    obtain ⟨hmmap, hkey, hresult, hbytes⟩ := mapmem_ok hal hsize hend hok
    obtain ⟨hsome, hread⟩ := given_mapmem hok p hp
    rw [hostProt_read] at hbytes hread
    have hpath : ¬(e.target.pku = true ∧ outcome h 1 = false) := by
      rintro ⟨hpku, hkeyfail⟩
      rw [hkey hpku] at hkeyfail
      cases hkeyfail
    have hne : Prot.readOnly ≠ Prot.none := by decide
    have hne' := hostProt_ne_none_of_consults hcons
    simp only [Stuck, href, hmmap, hcons, hpath, if_false, Bool.false_eq_true, true_and, accepts,
      ← hbytes, Bool.true_eq_false]
    generalize mapmem e h addr size LFI_PROT_READ flags fd off = m at *
    generalize (if e.target.pku = true then 2 else 1) = next at *
    obtain ⟨pg, hpg⟩ := Option.isSome_iff_exists.mp hsome
    rw [Memory.prot, hpg] at hread
    simp only at hread
    rcases lfivVerify_cases e.opts.pagesize e m.2 addr size with ⟨hacc, heq⟩ | ⟨hrej, heq⟩
    · rw [heq] at hfail ⊢
      simp only [Bool.not_true, Bool.false_eq_true, if_false, protectmem, hacc, if_true] at hfail ⊢
      rw [mprotect_eq hal] at hfail ⊢
      refine ⟨next + 1, fun j => ?_, ?_⟩
      · rw [result_tail, show j + (next + 1) = j + 1 + next by omega, ← hresult]
        rfl
      · simp only [Left, Memory.prot, mem_used, pages_mprotect_extent hal hp, hpg]
        split <;> simp [hread, hne, hne']
    · rw [heq] at hfail ⊢
      simp only [Bool.not_false, if_true, hrej, Bool.false_eq_true, if_false]
      refine ⟨next, hresult, ?_⟩
      simp [Left, Memory.prot, hpg, hread, hne]

end

namespace BoxRegion

variable {box : LFIBox} {r : Region} (hb : BoxRegion e box r)

include hb

theorem end_le (hacc : r.Accepts addr size) :
    addr + r.pages size * r.pagesize < 2 ^ 64 ∧ size ≤ r.pages size * r.pagesize := by
  have hps := r.pagesize_pos
  have hmul := Nat.mul_le_mul_right r.pagesize hacc.2.2.2
  rw [Nat.add_mul, Nat.div_mul_cancel hacc.1] at hmul
  have hceil := Nat.lt_div_mul_add (a := size + r.pagesize - 1) hps
  rw [← Region.pages] at hceil
  have := hb.end_lt
  omega

/-- Unmapping the range mapped last hands out that range as one piece. -/
theorem unmap_recorded {mm : AddrSpace} {info : MapInfo} (hm : Implements r mm)
    (hacc : r.Accepts addr size) (hrec : mm.Recorded r addr size info) :
    ∃ mm', mm.unmap addr size = (.kOk, mm', [⟨addr, r.pages size * r.pagesize, info⟩]) ∧
      Implements r mm' ∧
      mm'.table = mm.table.set (addr / r.pagesize) (r.pages size) none := by
  obtain ⟨mm', pieces, heq, hm', htable⟩ := hm.unmap_ok hb.fits hacc
  refine ⟨mm', ?_, hm', htable⟩
  obtain ⟨regions, hwf, hregions⟩ := hrec
  have hpos := r.pages_pos hacc.2.1
  have hlt : addr / r.pagesize < addr / r.pagesize + r.pages size := Nat.lt_add_of_pos_right hpos
  obtain ⟨en, hover, hlo, hhi, hval⟩ := getOverlapping_insert hwf hlt info
  rw [← hregions] at hover
  have hpieces : pieces = [⟨addr, r.pages size * r.pagesize, info⟩] := by
    rw [AddrSpace.unmap] at heq
    simp only [hm.toPage_eq, hm.toPageCeil_eq] at heq
    obtain ⟨hargs, hpages, hvalid⟩ := (hm.accepts_iff addr size).mp hacc
    rw [if_neg hargs, if_neg hpages, if_neg (by simp [hvalid]), hb.fits.add64_eq hacc.2.2, hover]
      at heq
    obtain rfl := (Prod.mk.inj (Prod.mk.inj heq).2).2
    rw [List.map_singleton, hb.clip_eq hm hacc.2.2.2 (by omega) (by omega), hval,
      Nat.max_eq_right hlo, Nat.min_eq_right hhi, Nat.add_sub_cancel_left,
      Nat.div_mul_cancel hacc.1]
  rw [heq, hpieces]

/-- Unmapping a free range hands out no piece. -/
theorem unmap_free {mm : AddrSpace} (hm : Implements r mm) (hacc : r.Accepts addr size)
    (hfree : mm.table.Free (addr / r.pagesize) (r.pages size)) :
    (mm.unmap addr size).2.2 = [] := by
  have hlt : addr / r.pagesize < addr / r.pagesize + r.pages size :=
    Nat.lt_add_of_pos_right (r.pages_pos hacc.2.1)
  have hempty : getOverlapping mm.regions (addr / r.pagesize)
      (addr / r.pagesize + r.pages size) = [] := by
    refine List.eq_nil_iff_forall_not_mem.mpr fun en hen => ?_
    obtain ⟨hmem, hstop, hstart⟩ := (mem_getOverlapping_iff hm.wellFormed hlt).mp hen
    rcases (free_iff hm.wellFormed hlt).mp hfree en hmem with hle | hle <;> omega
  rw [AddrSpace.unmap]
  simp only [hm.toPage_eq, hm.toPageCeil_eq]
  obtain ⟨hargs, hpages, hvalid⟩ := (hm.accepts_iff addr size).mp hacc
  rw [if_neg hargs, if_neg hpages, if_neg (by simp [hvalid]), hb.fits.add64_eq hacc.2.2, hempty]
  rfl

theorem inSpan_pages (hacc : r.Accepts addr size) :
    InSpan e.opts.pagesize addr (r.pages size * r.pagesize) p ↔
      InSpan e.opts.pagesize addr size p := by
  have hal : e.opts.pagesize ∣ addr := hb.pagesize ▸ hacc.1
  rw [hb.inSpan_iff hal, hb.inSpan_iff hal, r.pages_mul]

/-- The pages of an accepted range are pages of the region. -/
theorem contains_of_inSpan (hacc : r.Accepts addr size) (hp : InSpan e.opts.pagesize addr size p) :
    r.Contains p 1 := by
  have hrange := (hb.inSpan_iff (hb.pagesize ▸ hacc.1)).mp hp
  have hlo := hacc.2.2.1
  have hhi := hacc.2.2.2
  exact ⟨by omega, by omega⟩

end BoxRegion

/-- A call that keeps to a range without mappings, and leaves the table as it
was, changes nothing exactly when it leaves no access behind and no hole. -/
theorem unchanged_iff_of_within {r : Region} {box : LFIBox} {t : State} (hag : Agree e r box h)
    (hacc : r.Accepts addr size)
    (hfree : box.mm.table.Free (addr / r.pagesize) (r.pages size)) (ht : Implements r t.box.mm)
    (htable : t.box.mm.table = box.mm.table) (hbt : BoxRegion e t.box r)
    (hwithin : Within e.opts.pagesize addr size h t.host) :
    Unchanged e ⟨box, h⟩ t ↔
      ∀ p, InSpan e.opts.pagesize addr size p → Sealed h t.host p := by
  have hb := hag.region
  have hspan : ∀ p, InSpan e.opts.pagesize addr size p → box.mm.table p = none := by
    intro p hp
    have hrange := (hb.inSpan_iff (hb.pagesize ▸ hacc.1)).mp hp
    exact hfree p hrange.1 hrange.2
  have hnone : ∀ p, InSpan e.opts.pagesize addr size p → h.mem.prot p = Prot.none := by
    intro p hp
    rw [hag.prot p (hb.contains_of_inSpan hacc hp), hspan p hp]
    rfl
  constructor
  · intro hsame p hp
    obtain ⟨hlo, hhi⟩ := hb.mem_of_contains (hb.contains_of_inSpan hacc hp)
    have hprot := hsame.prot _ hlo hhi
    have hmapped := hsame.mapped _ hlo hhi
    rw [hb.page_div] at hprot hmapped
    exact ⟨by rw [hprot, hnone p hp], hmapped⟩
  · intro hall
    refine ⟨fun a _ _ => ?_, fun a _ _ => ?_, fun a _ _ hsome => ?_, fun a _ _ hsome _ => ?_⟩
    · rw [hbt.mquery_eq ht, hb.mquery_eq hag.mapper, htable]
    · by_cases hp : InSpan e.opts.pagesize addr size (a / e.opts.pagesize)
      · rw [(hall _ hp).1]
        exact (hnone _ hp).symm
      · exact hwithin.prot hp
    · by_cases hp : InSpan e.opts.pagesize addr size (a / e.opts.pagesize)
      · exact (hall _ hp).2 hsome
      · rwa [hwithin.pages _ hp]
    · have hp : ¬InSpan e.opts.pagesize addr size (a / e.opts.pagesize) := by
        intro hp
        rw [hb.mquery_eq hag.mapper, hspan _ hp] at hsome
        cases hsome
      exact ⟨hwithin.pages _ hp, hwithin.bytes a hp⟩

theorem Table.set_none_of_free {T : Table} {start n : Nat} (hfree : T.Free start n)
    (info : MapInfo) : (T.set start n (some info)).set start n none = T := by
  rw [Table.set_set]
  funext k
  by_cases hk : start ≤ k ∧ k < start + n
  · rw [Table.set, if_pos hk, hfree k hk.1 hk.2]
  · rw [Table.set, if_neg hk]

/-- A mapping of a free range that fails and is taken back. -/
theorem unchanged_undo_iff {r : Region} {box : LFIBox} {mm : AddrSpace} {info : MapInfo}
    (hag : Agree e r box h) (hacc : r.Accepts addr size)
    (hfree : box.mm.table.Free (addr / r.pagesize) (r.pages size)) (hm : Implements r mm)
    (htable : mm.table = box.mm.table.set (addr / r.pagesize) (r.pages size) (some info))
    (hrec : mm.Recorded r addr size info)
    (hfail : (mapverify e h addr size prot flags fd off false).1 = false) :
    let u := unmapPieces e { box with mm := mm } (mapverify e h addr size prot flags fd off false).2
      addr size
    Unchanged e ⟨box, h⟩ ⟨u.1, u.2⟩ ↔
      ∀ p, InSpan e.opts.pagesize addr size p → ¬Stuck e h addr size prot flags fd off p := by
  intro u
  have hb := hag.region
  have hal : addr % e.opts.pagesize = 0 := Nat.mod_eq_zero_of_dvd (hb.pagesize ▸ hacc.1)
  obtain ⟨hend, hle⟩ := hb.end_le hacc
  have hsize := hacc.2.1
  obtain ⟨mm', hunmap, hm', htable'⟩ := hb.unmap_recorded hm hacc hrec
  have hu : u = ({ box with mm := mm' }, cbunmap e
      (mapverify e h addr size prot flags fd off false).2
      ⟨addr, r.pages size * r.pagesize, info⟩) := by
    simp only [u, unmapPieces, hunmap]
    rfl
  rw [hu, unchanged_iff_of_within hag hacc hfree hm'
    (by rw [htable', htable, Table.set_none_of_free hfree]) hb.with_mm
    ((within_mapverify ..).trans ((within_cbunmap ..).mono fun p hp =>
      (hb.inSpan_pages hacc).mp hp))]
  refine forall₂_congr fun p hp => ?_
  have hrange := (hb.inSpan_iff (hb.pagesize ▸ hacc.1)).mp hp
  have hnone : h.mem.prot p = Prot.none := by
    rw [hag.prot p (hb.contains_of_inSpan hacc hp), hfree p hrange.1 hrange.2]
    rfl
  obtain ⟨i, hresult, hleft⟩ := left_mapverify_iff hal hsize (by omega) hp hnone hfail
  rw [← hleft]
  exact sealed_cbunmap_iff hal (hsize.trans_le hle) hend.le ((hb.inSpan_pages hacc).mpr hp) hresult

/-! The calls. -/

inductive BoxCall
  | mem (c : MemCall)
  | initRet

def boxCall (e : Engine) (s : State) : BoxCall → Bool × State
  | .mem c => memCall e s c
  | .initRet =>
      let r := lfiBoxInitRet e s.box s.host
      (r.1, ⟨r.2.1, r.2.2⟩)

/-- The host maps the page that `lfi_box_init_ret` asks for. -/
def MapsRet (e : Engine) (h : Host) : Prop :=
  outcome h 0 = true ∧ (e.target.pku = true → outcome h 1 = true)

/-- The protection that the host calls of a change of protection leave on page
`p`, if they reach the page. -/
def leftProt (e : Engine) (h : Host) (addr size : Nat) (prot : BitVec 32) (p : Nat) :
    Option Prot :=
  let ps := e.opts.pagesize
  if refuses e prot then none
  else if consults e prot then
    if e.lfivVerify addr (h.mem.readRange ps addr size) ∧ ReachesPage ps h 1 addr p then
      some (hostProt e.target prot)
    else if ReachesPage ps h 0 addr p then some Prot.readOnly
    else none
  else if ReachesPage ps h 0 addr p then some (hostProt e.target prot)
  else none

/-- A call that fails in this state leaves no trace. -/
def Undone (e : Engine) (s : State) : BoxCall → Prop
  | .mem (.mapany size prot flags fd off) => ∀ addr mm,
      s.box.mm.mapAny 0 size ⟨prot, flags, fd, off⟩ = (some addr, mm) →
        ∀ p, InSpan e.opts.pagesize addr size p → ¬Stuck e s.host addr size prot flags fd off p
  | .mem (.mapat addr size prot flags fd off) =>
      (lfiBoxBufvalid s.box addr size = false ∨ size = 0 ∨ addr % e.opts.pagesize ≠ 0) ∨
        (∀ a, addr ≤ a → a < addr + size → lfiBoxMquery s.box a = none) ∧
          ∀ p, InSpan e.opts.pagesize addr size p → ¬Stuck e s.host addr size prot flags fd off p
  | .mem (.mprotect addr size prot) =>
      (lfiBoxBufvalid s.box addr size = false ∨ size = 0 ∨ addr % e.opts.pagesize ≠ 0 ∨
          size % e.opts.pagesize ≠ 0) ∨
        ∀ p, InSpan e.opts.pagesize addr size p → ∀ pg, s.host.mem.pages p = some pg →
          ∀ pr, leftProt e s.host addr size prot p = some pr → pg.prot = pr
  | .mem (.munmap addr size) =>
      (lfiBoxBufvalid s.box addr size = false ∨ size = 0 ∨ addr % e.opts.pagesize ≠ 0) ∨
        ∀ p, InSpan e.opts.pagesize addr size p →
          ReachesPage e.opts.pagesize s.host 0 addr p → s.host.mem.pages p = none
  | .initRet => ∀ addr mm,
      s.box.mm.mapAny 0 e.opts.pagesize ⟨LFI_PROT_READ ||| LFI_PROT_WRITE,
        LFI_MAP_ANONYMOUS ||| LFI_MAP_PRIVATE, -1, 0⟩ = (some addr, mm) →
        ¬MapsRet e s.host ∧ ∀ p, InSpan e.opts.pagesize addr e.opts.pagesize p →
          ¬Stuck e s.host addr e.opts.pagesize (LFI_PROT_READ ||| LFI_PROT_WRITE)
            (LFI_MAP_ANONYMOUS ||| LFI_MAP_PRIVATE) (-1) 0 p

theorem Unchanged.of_mem {s t : State} (hmem : t.host.mem = s.host.mem)
    (hmquery : ∀ addr, lfiBoxMquery t.box addr = lfiBoxMquery s.box addr) : Unchanged e s t :=
  ⟨fun a _ _ => hmquery a, fun _ _ _ => by rw [hmem], fun _ _ _ hsome => by rwa [hmem],
    fun _ _ _ _ _ => by rw [hmem]; exact ⟨rfl, rfl⟩⟩

theorem Unchanged.refl (e : Engine) (s : State) : Unchanged e s s := .of_mem rfl fun _ => rfl

namespace BoxRegion

variable {box : LFIBox} {r : Region} (hb : BoxRegion e box r)

include hb

/-- The first address of a page acted on is one of the range. -/
theorem page_mem (hal : e.opts.pagesize ∣ addr) (hp : InSpan e.opts.pagesize addr size p) :
    addr ≤ p * e.opts.pagesize ∧ p * e.opts.pagesize < addr + size := by
  obtain ⟨hlo, hhi⟩ := (hb.inSpan_iff hal).mp hp
  have hps := r.pagesize_pos
  rw [hb.pagesize] at hal ⊢
  constructor
  · rw [← Nat.div_mul_cancel hal]
    exact Nat.mul_le_mul_right _ hlo
  · have hceil : r.pages size * r.pagesize ≤ size + r.pagesize - 1 := Nat.div_mul_le_self _ _
    have hmul := Nat.mul_le_mul_right r.pagesize (Nat.succ_le_of_lt hhi)
    rw [Nat.add_mul, Nat.div_mul_cancel hal, Nat.succ_mul] at hmul
    omega

/-- The pages of a range are free when no address of it is mapped. -/
theorem free_iff_mquery (hm : Implements r box.mm) (hal : e.opts.pagesize ∣ addr) :
    box.mm.table.Free (addr / r.pagesize) (r.pages size) ↔
      ∀ a, addr ≤ a → a < addr + size → lfiBoxMquery box a = none := by
  constructor
  · intro hfree a hlo hhi
    have hin := (hb.inSpan_iff hal).mp (inSpan_of_mem (hb.pagesize ▸ r.pagesize_pos) hlo hhi)
    rw [hb.mquery_eq hm]
    exact hfree _ hin.1 hin.2
  · intro hnone k hlo hhi
    obtain ⟨hlo', hhi'⟩ := hb.page_mem hal ((hb.inSpan_iff hal).mpr ⟨hlo, hhi⟩)
    have hk := hnone _ hlo' hhi'
    rwa [hb.mquery_eq hm, hb.page_div] at hk

end BoxRegion

variable {r : Region} {box : LFIBox}

theorem mapany_unchanged_iff (size : Nat) (prot flags : BitVec 32) (fd off : Int)
    (hag : Agree e r box h)
    (hfail : (boxMapanyLocked e box h size prot flags fd off false).1 = none) :
    let u := boxMapanyLocked e box h size prot flags fd off false
    Unchanged e ⟨box, h⟩ ⟨u.2.1, u.2.2⟩ ↔ ∀ addr mm,
      box.mm.mapAny 0 size ⟨prot, flags, fd, off⟩ = (some addr, mm) →
        ∀ p, InSpan e.opts.pagesize addr size p → ¬Stuck e h addr size prot flags fd off p := by
  intro u
  have hb := hag.region
  simp only [u, boxMapanyLocked] at hfail ⊢
  rcases hag.mapper.mapAny_cases hb.fits 0 size ⟨prot, flags, fd, off⟩ with
    ⟨start, mm, heq, hsize, hin, hfree, hm, htable, hrec⟩ | ⟨mm, heq, hm, htable⟩
  · simp only [heq] at hfail ⊢
    have hpage : start * r.pagesize / r.pagesize = start := Nat.mul_div_cancel _ r.pagesize_pos
    split at hfail
    · rename_i hver
      rw [if_pos hver]
      have hacc : r.Accepts (start * r.pagesize) size :=
        ⟨Nat.dvd_mul_left _ _, hsize, by rw [hpage]; exact hin⟩
      have hundo := unchanged_undo_iff hag hacc (by rw [hpage]; exact hfree) hm
        (by rw [hpage]; exact htable) hrec (by simpa using hver)
      refine hundo.trans ⟨fun hstuck a m ham => ?_, fun hall => hall _ _ rfl⟩
      obtain rfl := Option.some.inj (Prod.mk.inj ham).1
      exact hstuck
    · cases hfail
  · simp only [heq] at hfail ⊢
    refine iff_of_true (.of_mem rfl fun a => ?_) fun a m ham => by cases (Prod.mk.inj ham).1
    rw [hb.with_mm.mquery_eq hm, hb.mquery_eq hag.mapper, htable]

theorem mapat_unchanged_iff (hag : Agree e r box h)
    (hfail : (lfiBoxMapat e box h addr size prot flags fd off).1 = none) :
    let u := lfiBoxMapat e box h addr size prot flags fd off
    Unchanged e ⟨box, h⟩ ⟨u.2.1, u.2.2⟩ ↔
      Undone e ⟨box, h⟩ (.mem (.mapat addr size prot flags fd off)) := by
  intro u
  have hb := hag.region
  have hps := hb.pagesize
  simp only [u, lfiBoxMapat, boxMapatLocked, Undone] at hfail ⊢
  by_cases hbuf : lfiBoxBufvalid box addr size = true
  swap
  · have hbuf : lfiBoxBufvalid box addr size = false := by simpa using hbuf
    simp only [hbuf]
    exact iff_of_true (.refl e _) (.inl (.inl trivial))
  simp only [hbuf, Bool.not_true, Bool.false_eq_true, if_false] at hfail ⊢
  rcases hag.mapper.mapAt_cases hb.fits addr size ⟨prot, flags, fd, off⟩ with
    ⟨mm, heq, hacc, hm, htable, hrec⟩ | ⟨heq, hacc⟩
  · have hal : e.opts.pagesize ∣ addr := hps ▸ hacc.1
    have hargs : ¬(true = false ∨ size = 0 ∨ addr % e.opts.pagesize ≠ 0) := by
      have := Nat.mod_eq_zero_of_dvd hal
      have := hacc.2.1
      simp only [Bool.true_eq_false, false_or]
      omega
    simp only [heq] at hfail ⊢
    split at hfail
    · rename_i hver
      rw [if_pos hver, or_iff_right hargs, ← hb.free_iff_mquery hag.mapper hal]
      by_cases hfree : box.mm.table.Free (addr / r.pagesize) (r.pages size)
      · have hnil := hb.unmap_free hag.mapper hacc hfree
        rw [hnil] at hver ⊢
        rw [and_iff_right hfree]
        exact unchanged_undo_iff hag hacc hfree hm htable hrec (by simpa using hver)
      · refine iff_of_false (fun hsame => hfree fun k hlo hhi => ?_) fun hand => hfree hand.1
        -- what was mapped there is gone from the mapper
        obtain ⟨mm', hunmap, hm', htable'⟩ := hb.unmap_recorded hm hacc hrec
        have hin : r.Contains k 1 := hb.contains_of_inSpan hacc ((hb.inSpan_iff hal).mpr ⟨hlo, hhi⟩)
        obtain ⟨hlo', hhi'⟩ := hb.mem_of_contains hin
        have hk := hsame.mquery _ hlo' hhi'
        simp only [unmapPieces, hunmap] at hk
        rw [hb.mquery_eq hag.mapper, hb.with_mm.mquery_eq hm', hb.page_div, htable', Table.set,
          if_pos ⟨hlo, hhi⟩] at hk
        exact hk.symm
    · cases hfail
  · simp only [heq]
    refine iff_of_true (.refl e _) (.inl (.inr ?_))
    by_contra hargs
    push Not at hargs
    exact hacc (hb.accepts hbuf (Nat.pos_of_ne_zero hargs.1) (Nat.dvd_of_mod_eq_zero hargs.2))

/-- What a change of protection does to a page, whether it fails or not. -/
theorem pages_protectverify (hal : addr % e.opts.pagesize = 0)
    (hp : InSpan e.opts.pagesize addr size p) :
    (protectverify e h addr size prot false).2.mem.pages p =
      (h.mem.pages p).map fun pg =>
        { pg with prot := (leftProt e h addr size prot p).getD pg.prot } := by
  simp only [protectverify]
  by_cases hskip : skipsVerifier e prot (false || e.opts.noVerify) = true
  · obtain ⟨hcons, href⟩ := skipsVerifier_eq_true_iff.mp hskip
    rw [if_pos hskip, protectmem, mprotect_eq hal, mem_used, pages_mprotect_extent hal hp]
    simp only [leftProt, href, hcons, Bool.false_eq_true, if_false]
    split <;> simp
  rw [if_neg hskip]
  by_cases hwx : (has prot LFI_PROT_WRITE && has prot LFI_PROT_EXEC) = true
  · have href := refuses_of_not_skips hskip hwx
    rw [if_pos hwx]
    simp [leftProt, href]
  rw [if_neg hwx]
  obtain ⟨hcons, href⟩ := consults_of_not_skips hskip hwx
  have hbytes : (protectmem e h addr size Prot.readOnly).2.mem.readRange e.opts.pagesize addr size =
      h.mem.readRange e.opts.pagesize addr size := by
    rw [protectmem, mprotect_eq hal, mem_used, Memory.readRange_mprotect]
  have hread : (protectmem e h addr size Prot.readOnly).2.mem.pages p =
      if ReachesPage e.opts.pagesize h 0 addr p then
        (h.mem.pages p).map fun pg => { pg with prot := Prot.readOnly }
      else h.mem.pages p := by
    rw [protectmem, mprotect_eq hal, mem_used, pages_mprotect_extent hal hp]
  have hresult : ∀ i, result (protectmem e h addr size Prot.readOnly).2 i = result h (i + 1) := by
    intro i
    rw [protectmem, mprotect_eq hal, result_tail]
  generalize (protectmem e h addr size Prot.readOnly).2 = readable at *
  rcases lfivVerify_cases e.opts.pagesize e readable addr size with ⟨hacc, heq⟩ | ⟨hrej, heq⟩
  · rw [heq]
    rw [hbytes] at hacc
    have hreach : ReachesPage e.opts.pagesize
        ⟨readable.mem, readable.outcomes,
          (addr, readable.mem.readRange e.opts.pagesize addr size) :: readable.verified⟩ 0 addr p ↔
        ReachesPage e.opts.pagesize h 1 addr p := reachesPage_shift (hresult 0)
    simp only [Bool.not_true, Bool.false_eq_true, if_false, protectmem]
    rw [mprotect_eq hal, mem_used, pages_mprotect_extent hal hp]
    simp only [hreach, hread, leftProt, href, hcons, hacc, Bool.false_eq_true, if_false, if_true,
      true_and]
    split
    · split <;> simp [Function.comp_def]
    · split <;> simp
  · rw [heq]
    rw [hbytes] at hrej
    simp only [Bool.not_false, if_true, hread, leftProt, href, hcons, hrej, Bool.false_eq_true,
      if_false, false_and]
    split <;> simp

/-- The ways a change of protection can fail: its arguments, or the host. -/
theorem boxMprotectLocked_fail (hb : BoxRegion e box r) (hm : Implements r box.mm)
    (hfail : (boxMprotectLocked e box h addr size prot false).1 ≠ 0) :
    let u := boxMprotectLocked e box h addr size prot false
    u.2.1 = box ∧
      ((lfiBoxBufvalid box addr size = false ∨ size = 0 ∨ addr % e.opts.pagesize ≠ 0 ∨
          size % e.opts.pagesize ≠ 0) ∧ u.2.2 = h ∨
        r.Accepts addr size ∧ size % e.opts.pagesize = 0 ∧ lfiBoxBufvalid box addr size = true ∧
          (protectverify e h addr size prot false).1 = false ∧
          u.2.2 = (protectverify e h addr size prot false).2) := by
  intro u
  simp only [u, boxMprotectLocked] at hfail ⊢
  split at hfail
  · rename_i hargs
    rw [if_pos hargs]
    exact ⟨rfl, .inl ⟨.inr hargs, rfl⟩⟩
  rename_i hargs
  rw [if_neg hargs]
  obtain ⟨hsize, hal, hwhole⟩ : size ≠ 0 ∧ addr % e.opts.pagesize = 0 ∧
      size % e.opts.pagesize = 0 := by omega
  split at hfail
  · rename_i hbuf
    rw [if_pos hbuf]
    exact ⟨rfl, .inl ⟨.inl (by simpa using hbuf), rfl⟩⟩
  rename_i hbuf
  rw [if_neg hbuf]
  have hbuf : lfiBoxBufvalid box addr size = true := by simpa using hbuf
  have hacc := hb.accepts hbuf (Nat.pos_of_ne_zero hsize) (Nat.dvd_of_mod_eq_zero hal)
  split at hfail
  · rename_i hver
    rw [if_pos hver]
    exact ⟨rfl, .inr ⟨hacc, hwhole, hbuf, by simpa using hver, rfl⟩⟩
  · obtain ⟨mm, pieces, heq, -, -⟩ := hm.protect_ok hb.fits prot hacc
    rw [heq] at hfail
    exact absurd rfl hfail

theorem mprotect_unchanged_iff (hag : Agree e r box h)
    (hfail : (lfiBoxMprotect e box h addr size prot).1 ≠ 0) :
    let u := lfiBoxMprotect e box h addr size prot
    Unchanged e ⟨box, h⟩ ⟨u.2.1, u.2.2⟩ ↔
      Undone e ⟨box, h⟩ (.mem (.mprotect addr size prot)) := by
  intro u
  have hb := hag.region
  obtain ⟨hbox, hcase⟩ := boxMprotectLocked_fail hb hag.mapper hfail
  have hubox : u.2.1 = box := hbox
  rcases hcase with ⟨hargs, hhost⟩ | ⟨hacc, hwhole, hbuf, hver, hhost⟩
  · have huhost : u.2.2 = h := hhost
    rw [hubox, huhost]
    exact iff_of_true (.refl e _) (.inl hargs)
  have huhost : u.2.2 = (protectverify e h addr size prot false).2 := hhost
  have hal : e.opts.pagesize ∣ addr := hb.pagesize ▸ hacc.1
  have hal' := Nat.mod_eq_zero_of_dvd hal
  have hsize := hacc.2.1
  have hpage : ∀ p, InSpan e.opts.pagesize addr size p → u.2.2.mem.pages p =
      (h.mem.pages p).map fun pg =>
        { pg with prot := (leftProt e h addr size prot p).getD pg.prot } := by
    intro p hp
    rw [huhost]
    exact pages_protectverify hal' hp
  have hwithin : Within e.opts.pagesize addr size h u.2.2 := by
    rw [huhost]
    exact within_protectverify ..
  have hbytes : Memory.SameBytes u.2.2.mem h.mem := by
    rw [huhost]
    exact sameBytes_protectverify ..
  rw [hubox, Undone, or_iff_right (by
    simp only [hbuf, Bool.true_eq_false, false_or]
    omega)]
  constructor
  · intro hsame p hp pg (hpg : h.mem.pages p = some pg) pr hpr
    obtain ⟨hmin, hmax⟩ := hb.mem_of_contains (hb.contains_of_inSpan hacc hp)
    have hprot : u.2.2.mem.prot p = h.mem.prot p := by
      have hsame := hsame.prot _ hmin hmax
      rwa [hb.page_div] at hsame
    simp only [Memory.prot, hpage p hp, hpg, hpr, Option.map_some, Option.getD_some] at hprot
    exact hprot.symm
  · intro hall
    have hpages : ∀ p, u.2.2.mem.pages p = h.mem.pages p := by
      intro p
      by_cases hp : InSpan e.opts.pagesize addr size p
      · rw [hpage p hp]
        cases hpg : h.mem.pages p with
        | none => rfl
        | some pg =>
            cases hpr : leftProt e h addr size prot p with
            | none => simp
            | some pr => simp [← hall p hp pg hpg pr hpr]
      · exact hwithin.pages p hp
    exact ⟨fun _ _ _ => rfl, fun _ _ _ => Memory.prot_eq_of_pages (hpages _),
      fun _ _ _ hsome => by rwa [hpages], fun _ _ _ _ _ => ⟨hpages _, hbytes.read _⟩⟩

theorem munmap_unchanged_iff (hag : Agree e r box h)
    (hfail : (lfiBoxMunmap e box h addr size).1 ≠ 0) :
    let u := lfiBoxMunmap e box h addr size
    Unchanged e ⟨box, h⟩ ⟨u.2.1, u.2.2⟩ ↔ Undone e ⟨box, h⟩ (.mem (.munmap addr size)) := by
  intro u
  have hb := hag.region
  simp only [u, lfiBoxMunmap, boxMunmapLocked, Undone] at hfail ⊢
  split at hfail
  · rename_i hargs
    rw [if_pos hargs]
    refine iff_of_true (.refl e _) (.inl ?_)
    simpa [or_assoc] using hargs
  rename_i hargs
  rw [if_neg hargs]
  simp only [Bool.or_eq_true, Bool.not_eq_true', beq_iff_eq, bne_iff_ne, ne_eq, not_or,
    Bool.not_eq_false, not_not] at hargs
  obtain ⟨⟨hbuf, hsize⟩, hal⟩ := hargs
  have hacc := hb.accepts hbuf (Nat.pos_of_ne_zero hsize) (Nat.dvd_of_mod_eq_zero hal)
  split at hfail
  · rename_i hmap
    rw [if_pos hmap, or_iff_right (by simp [hbuf, hsize, hal])]
    obtain ⟨hend, hle⟩ := hb.end_le hacc
    have hlen : (size + e.opts.pagesize - 1) / e.opts.pagesize * e.opts.pagesize =
        r.pages size * r.pagesize := by rw [hb.pagesize, Region.pages]
    rw [hlen] at hmap ⊢
    rw [mmap_eq hal (hacc.2.1.trans_le hle) hend.le] at hmap ⊢
    have hfirst : outcome h 0 = false := by simpa [mmapOk] using hmap
    simp only [mmapMem, hfirst, Bool.false_eq_true, if_false]
    have hspan : ∀ p, InSpan e.opts.pagesize addr (r.pages size * r.pagesize) p ↔
        InSpan e.opts.pagesize addr size p := fun p => hb.inSpan_pages hacc
    constructor
    · intro hsame p hp hreach
      obtain ⟨hmin, hmax⟩ := hb.mem_of_contains (hb.contains_of_inSpan hacc hp)
      have hmapped := hsame.mapped _ hmin hmax
      rw [hb.page_div] at hmapped
      simp only [mem_used, pages_munmap_extent hal ((hspan p).mpr hp), hreach, if_true] at hmapped
      simpa using hmapped
    · intro hall
      have hpages : ∀ p, (h.mem.munmap e.opts.pagesize addr ((result h 0).extent
          e.opts.pagesize (r.pages size * r.pagesize))).pages p = h.mem.pages p := by
        intro p
        by_cases hp : InSpan e.opts.pagesize addr size p
        · rw [pages_munmap_extent hal ((hspan p).mpr hp)]
          split
          · rename_i hreach
            rw [hall p hp hreach]
          · rfl
        · refine (within_mem_munmap h (Outcome.extent_le _ _ _)).pages p fun hin => hp ?_
          exact (hspan p).mp hin
      refine ⟨fun _ _ _ => rfl, fun _ _ _ => Memory.prot_eq_of_pages (hpages _),
        fun _ _ _ hsome => by rwa [mem_used, hpages], fun a _ _ _ hsome => ⟨hpages _, ?_⟩⟩
      -- a page that is there has not been reached
      refine Memory.read_munmap_of_not fun hin => ?_
      have hgone := hpages (a / e.opts.pagesize)
      simp only [Memory.munmap, if_pos hin] at hgone
      rw [← hgone] at hsome
      cases hsome
  · obtain ⟨mm, pieces, heq, -, -⟩ := hag.mapper.unmap_ok hb.fits hacc
    rw [heq] at hfail
    exact absurd rfl hfail

/-- The mapping that `lfi_box_init_ret` makes is up to the host. -/
theorem mapverify_ret (hal : addr % e.opts.pagesize = 0) (hsize : 0 < size)
    (hend : addr + size ≤ 2 ^ 64) :
    (mapverify e h addr size (LFI_PROT_READ ||| LFI_PROT_WRITE)
        (LFI_MAP_ANONYMOUS ||| LFI_MAP_PRIVATE) (-1) 0 false).1 = true ↔ MapsRet e h := by
  have hexec : has (LFI_PROT_READ ||| LFI_PROT_WRITE) LFI_PROT_EXEC = false := by decide
  have hskip : skipsVerifier e (LFI_PROT_READ ||| LFI_PROT_WRITE) (false || e.opts.noVerify) =
      true := by
    simp [skipsVerifier, hexec]
  have hsrc : hostSource e.opts.pagesize (LFI_MAP_ANONYMOUS ||| LFI_MAP_PRIVATE) (-1) 0 =
      some .anon := rfl
  simp only [mapverify, hskip, if_true]
  rw [mapmem_eq hal hsize hend, hsrc, mmapOk, Option.isSome_some, Bool.and_true, MapsRet]
  cases outcome h 0 <;> cases outcome h 1 <;> cases e.target.pku <;> simp

theorem initRet_unchanged_iff (hag : Agree e r box h) (hfail : (lfiBoxInitRet e box h).1 = false) :
    let u := lfiBoxInitRet e box h
    Unchanged e ⟨box, h⟩ ⟨u.2.1, u.2.2⟩ ↔ Undone e ⟨box, h⟩ .initRet := by
  intro u
  have hb := hag.region
  have hmapany := mapany_unchanged_iff e.opts.pagesize (LFI_PROT_READ ||| LFI_PROT_WRITE)
    (LFI_MAP_ANONYMOUS ||| LFI_MAP_PRIVATE) (-1) 0 hag
  simp only [u, lfiBoxInitRet, Undone] at hfail ⊢
  rcases hag.mapper.mapAny_cases hb.fits 0 e.opts.pagesize ⟨LFI_PROT_READ ||| LFI_PROT_WRITE,
      LFI_MAP_ANONYMOUS ||| LFI_MAP_PRIVATE, -1, 0⟩ with
    ⟨start, mm, heq, hsize, hin, hfree, hm, htable, hrec⟩ | ⟨mm, heq, hm, htable⟩
  · have hpage : start * r.pagesize / r.pagesize = start := Nat.mul_div_cancel _ r.pagesize_pos
    have hacc : r.Accepts (start * r.pagesize) e.opts.pagesize :=
      ⟨Nat.dvd_mul_left _ _, hsize, by rw [hpage]; exact hin⟩
    have hend := hb.end_le hacc
    have hal : start * r.pagesize % e.opts.pagesize = 0 := by
      rw [hb.pagesize]
      exact Nat.mul_mod_left _ _
    have hret := mapverify_ret (h := h) hal hsize (by omega)
    simp only [boxMapanyLocked, heq] at hfail hmapany ⊢
    by_cases hver : (mapverify e h (start * r.pagesize) e.opts.pagesize
        (LFI_PROT_READ ||| LFI_PROT_WRITE) (LFI_MAP_ANONYMOUS ||| LFI_MAP_PRIVATE) (-1) 0
        false).1 = true
    · rw [if_neg (by simpa using hver)] at hfail ⊢
      simp only at hfail ⊢
      -- the mapping stays although the call fails
      have hlost : ∀ t : State, t.box = { box with mm := mm } → ¬Unchanged e ⟨box, h⟩ t := by
        intro t ht hsame
        have hpos := r.pages_pos hsize
        have hcontains : r.Contains start 1 := ⟨hin.1, by have := hin.2; omega⟩
        obtain ⟨hlo, hhi⟩ := hb.mem_of_contains hcontains
        have hquery := hsame.mquery _ hlo hhi
        rw [ht, hb.with_mm.mquery_eq hm, hb.mquery_eq hag.mapper, hb.page_div, htable, Table.set,
          if_pos ⟨le_rfl, by omega⟩, hfree start le_rfl (by omega)] at hquery
        cases hquery
      refine iff_of_false (hlost _ ?_) fun hall => (hall _ _ rfl).1 (hret.mp hver)
      split at hfail
      · rename_i hptr
        rw [if_pos hptr]
      rename_i hptr
      rw [if_neg hptr]
      generalize Memory.writeBytes e.opts.pagesize 
        (ite (e.target = x64 ∨ e.target = x64Pku) _ _) (start * r.pagesize) (ret e.target) = mem
        at hfail ⊢
      split at hfail
      · rename_i hprotect
        rw [if_pos hprotect]
        exact (boxMprotectLocked_fail hb.with_mm hm hprotect).1
      · cases hfail
    · rw [if_pos (by simpa using hver)] at hmapany ⊢
      refine (hmapany rfl).trans ⟨fun hall a m ham => ⟨?_, hall a m ham⟩,
        fun hall a m ham => (hall a m ham).2⟩
      rwa [← hret]
  · simp only [boxMapanyLocked, heq] at hfail hmapany ⊢
    refine (hmapany trivial).trans (iff_of_true ?_ ?_) <;>
    · intro a m ham
      cases (Prod.mk.inj ham).1

/-- A call that fails changes nothing exactly when it is undone. -/
theorem failed_call_unchanged_iff {e : Engine} {r : Region} {s : State} {c : BoxCall}
    (hag : Agree e r s.box s.host) (hfail : (boxCall e s c).1 = false) :
    Unchanged e s (boxCall e s c).2 ↔ Undone e s c := by
  cases c with
  | initRet => exact initRet_unchanged_iff hag hfail
  | mem c =>
      cases c with
      | mapany size prot flags fd off =>
          simp only [boxCall, memCall, Option.isSome_eq_false_iff, Option.isNone_iff_eq_none]
            at hfail ⊢
          exact mapany_unchanged_iff _ _ _ _ _ hag hfail
      | mapat addr size prot flags fd off =>
          simp only [boxCall, memCall, Option.isSome_eq_false_iff, Option.isNone_iff_eq_none]
            at hfail ⊢
          exact mapat_unchanged_iff hag hfail
      | mprotect addr size prot =>
          simp only [boxCall, memCall, beq_eq_false_iff_ne] at hfail ⊢
          exact mprotect_unchanged_iff hag hfail
      | munmap addr size =>
          simp only [boxCall, memCall, beq_eq_false_iff_ne] at hfail ⊢
          exact munmap_unchanged_iff hag hfail

/-- A mapping refused for being writable and executable. -/
theorem refused_mapany_changes_nothing :
    let c := BoxCall.mem (.mapany 4096 (LFI_PROT_WRITE ||| LFI_PROT_EXEC) 34 (-1) 0)
    (boxCall nopEngine ⟨emptyBox, reservedHost⟩ c).1 = false ∧
      Unchanged nopEngine ⟨emptyBox, reservedHost⟩
        (boxCall nopEngine ⟨emptyBox, reservedHost⟩ c).2 := by
  intro c
  obtain ⟨r, hinv⟩ := inv_new placed_nopEngine lfiBoxNew_nopEngine reserved_reservedHost
  have hfail : (boxCall nopEngine ⟨emptyBox, reservedHost⟩ c).1 = false := by decide
  refine ⟨hfail, (failed_call_unchanged_iff hinv.agree hfail).mpr ?_⟩
  intro addr mm _ p _ hstuck
  have hrefused : refuses nopEngine (LFI_PROT_WRITE ||| LFI_PROT_EXEC) = true := by decide
  rw [Stuck, hrefused, if_pos rfl] at hstuck
  exact absurd hstuck.1 (by decide)

/-- The same refusal where something is mapped: the mapping is gone. -/
theorem refused_mapat_loses_mapping :
    let s := (memCall nopEngine ⟨emptyBox, reservedHost⟩
      (.mapany 4096 (LFI_PROT_READ ||| LFI_PROT_WRITE) 34 (-1) 0)).2
    let t := boxCall nopEngine s
      (.mem (.mapat emptyBox.min 4096 (LFI_PROT_WRITE ||| LFI_PROT_EXEC) 34 (-1) 0))
    (∃ r, Agree nopEngine r s.box s.host) ∧ t.1 = false ∧
      (lfiBoxMquery s.box emptyBox.min).isSome ∧ lfiBoxMquery t.2.box emptyBox.min = none ∧
      ¬Unchanged nopEngine s t.2 := by
  intro s t
  obtain ⟨r, hinv⟩ := inv_new placed_nopEngine lfiBoxNew_nopEngine reserved_reservedHost
  have hstep : SuccessStep nopEngine ⟨emptyBox, reservedHost⟩
      (.mapany 4096 (LFI_PROT_READ ||| LFI_PROT_WRITE) 34 (-1) 0) s := Prod.ext (by decide) rfl
  have hbefore : (lfiBoxMquery s.box emptyBox.min).isSome := by decide
  have hafter : lfiBoxMquery t.2.box emptyBox.min = none := by decide
  refine ⟨⟨r, (hinv.mapany hstep).agree⟩, by decide, hbefore, hafter, fun hsame => ?_⟩
  have hquery := hsame.mquery emptyBox.min (by decide) (by decide)
  rw [hafter] at hquery
  rw [← hquery] at hbefore
  cases hbefore

end LfiRuntime.Box
