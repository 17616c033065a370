import LfiRuntime.Lib.Runs
import LfiRuntime.Linux.Brk

/-!
The region of the break, over runs of `sys_brk` and of calls that keep away from it.
-/

namespace LfiRuntime.Brk

open LfiRuntime.Align
open LfiRuntime.Box
open LfiRuntime.Config
open LfiRuntime.Elf
open LfiRuntime.HostCalls
open LfiRuntime.Mmap
open LfiRuntime.PagedMemory
open LfiRuntime.Runs

/-- The first page that starts at `a` or above. -/
def pageUp (ps a : Nat) : Nat := (a + ps - 1) / ps

/-- The break of a process. -/
abbrev brk (p : LFILinuxProc) : Nat := p.brkbase + p.brksize

/-- The break that a call asks for, moved into the region. -/
def request (o : LFILinuxOptions) (p : LFILinuxProc) (addr : Nat) : Nat :=
  min (max (if addr ≠ 0 then addr else brk p) p.brkbase) (p.brkbase + o.brkmaxsize)

/-- Where the break and its region are. -/
structure Bounds (e : Engine) (r : Region) (o : LFILinuxOptions) (p : LFILinuxProc) : Prop where
  works : Works e r p.box
  lo : p.box.min ≤ p.brkbase
  hi : p.brkbase + o.brkmaxsize ≤ p.box.max
  aligned : e.opts.pagesize ∣ p.brkbase
  size_le : p.brksize ≤ o.brkmaxsize

variable {e : Engine} {r : Region} {o : LFILinuxOptions} {p p' : LFILinuxProc} {a b addr k n : Nat}

theorem pageUp_mono {ps : Nat} (h : a ≤ b) : pageUp ps a ≤ pageUp ps b :=
  Nat.div_le_div_right (by omega)

theorem lt_of_pageUp_lt {ps : Nat} (h : pageUp ps a < pageUp ps b) : a < b :=
  not_le.mp fun hle => absurd h (not_lt.mpr (pageUp_mono hle))

theorem le_pageUp {ps : Nat} (hps : 0 < ps) (a : Nat) : a ≤ pageUp ps a * ps := by
  have hlt := Nat.lt_div_mul_add (a := a + ps - 1) hps
  rw [← pageUp] at hlt
  omega

/-- The pages below the one that `a` is rounded up to. -/
theorem lt_pageUp_iff {ps : Nat} (hps : 0 < ps) : k < pageUp ps a ↔ k * ps < a := by
  rw [pageUp, Nat.lt_div_iff_mul_lt hps]
  omega

theorem pageUp_le_iff {ps : Nat} (hps : 0 < ps) : pageUp ps a ≤ k ↔ a ≤ k * ps := by
  rw [← not_lt, lt_pageUp_iff hps, not_lt]

theorem pagesize_pos (hw : Works e r p.box) : 0 < e.opts.pagesize :=
  hw.region.pagesize ▸ r.pagesize_pos

theorem isAlign_pagesize (hw : Works e r p.box) (hmax : 0 < p.box.max) :
    IsAlign e.opts.pagesize := by
  refine ⟨r.p2, (Nat.pow_lt_pow_iff_right (show 1 < 2 by decide)).mp ?_, hw.region.pagesize⟩
  have hpages : 0 < r.base + r.len := by
    rw [hw.region.hi] at hmax
    exact Nat.pos_of_mul_pos_right hmax
  exact (Nat.le_mul_of_pos_left _ hpages).trans_lt hw.region.end_lt

theorem request_bounds (o : LFILinuxOptions) (p : LFILinuxProc) (addr : Nat) :
    p.brkbase ≤ request o p addr ∧ request o p addr ≤ p.brkbase + o.brkmaxsize := by
  rw [request]
  omega

namespace Bounds

theorem lt (h : Bounds e r o p) : p.brkbase + o.brkmaxsize < 2 ^ 64 :=
  h.hi.trans_lt h.works.region.lt

/-- Rounding up stays in the box. -/
theorem ceilp_eq (h : Bounds e r o p) (hle : a ≤ p.brkbase + o.brkmaxsize)
    (hpos : 0 < p.brkbase + o.brkmaxsize) :
    ceilp a e.opts.pagesize = pageUp e.opts.pagesize a * e.opts.pagesize ∧
      pageUp e.opts.pagesize a * e.opts.pagesize ≤ p.box.max := by
  have hb := h.works.region
  have hps := pagesize_pos h.works
  have hmax := h.hi
  have hup : pageUp e.opts.pagesize a * e.opts.pagesize ≤ p.box.max := by
    rw [hb.hi, ← hb.pagesize]
    refine Nat.mul_le_mul_right _ ((pageUp_le_iff hps).mpr ?_)
    rw [hb.pagesize, ← hb.hi]
    omega
  have halign := isAlign_pagesize h.works (by omega)
  have hdvd : e.opts.pagesize ∣ p.box.max := by
    rw [hb.hi, ← hb.pagesize]
    exact Nat.dvd_mul_left _ _
  exact ⟨(ceilp_spec halign (hle.trans hmax) hdvd hb.lt).1, hup⟩

end Bounds

/-- The call of `lfi_box_mapat` that moves the break to `new`. -/
def growth (e : Engine) (p : LFILinuxProc) (new : Nat) : Option Nat × LFIBox × Host :=
  let ps := e.opts.pagesize
  lfiBoxMapat e p.box p.host (pageUp ps (brk p) * ps)
    ((pageUp ps new - pageUp ps (brk p)) * ps) MAP_PROT MAP_FLAGS (-1) 0

/-- What a call of `sys_brk` can do. -/
theorem sysBrk_cases (h : Bounds e r o p) (addr : Nat) :
    let new := request o p addr
    let ps := e.opts.pagesize
    (addr ≠ 0 ∧ lfiBoxPtrvalid p.box addr = false) ∧ sysBrk e o p addr = (none, p) ∨
      ¬(addr ≠ 0 ∧ lfiBoxPtrvalid p.box addr = false) ∧
        (pageUp ps new ≤ pageUp ps (brk p) ∧
            sysBrk e o p addr = (some new, { p with brksize := new - p.brkbase }) ∨
          pageUp ps (brk p) < pageUp ps new ∧
            sysBrk e o p addr =
              if (growth e p new).1.isNone then
                (none, { p with box := (growth e p new).2.1, host := (growth e p new).2.2 })
              else
                (some new, { p with
                  box := (growth e p new).2.1, host := (growth e p new).2.2,
                  brksize := new - p.brkbase })) := by
  intro new ps
  have hdef : brk p = p.brkbase + p.brksize := rfl
  by_cases href : addr ≠ 0 ∧ lfiBoxPtrvalid p.box addr = false
  · exact .inl ⟨href, by rw [sysBrk, if_pos href]⟩
  refine .inr ⟨href, ?_⟩
  have hlt := h.lt
  have hsize := h.size_le
  obtain ⟨hlo, hhi⟩ := request_bounds o p addr
  have hbrk : add64 p.brkbase p.brksize = brk p := add64_eq (by omega)
  have hlimit : add64 p.brkbase o.brkmaxsize = p.brkbase + o.brkmaxsize := add64_eq hlt
  rw [sysBrk, if_neg href]
  simp only [hbrk, hlimit]
  -- the two tests move the request into the region
  have hreq : ∀ x, (if (if x < p.brkbase then p.brkbase else x) ≥ p.brkbase + o.brkmaxsize then
      p.brkbase + o.brkmaxsize else if x < p.brkbase then p.brkbase else x) =
      min (max x p.brkbase) (p.brkbase + o.brkmaxsize) := by
    intro x
    split_ifs <;> omega
  have hnew : add64 p.brkbase (new - p.brkbase) = new := by
    rw [add64_eq (by omega)]
    omega
  rw [hreq, ← request, sub64_eq hlo (by omega)]
  change _ ∧ (if new - p.brkbase = p.brksize then _ else _) = _ ∨ _
  rw [hnew]
  rcases Nat.lt_or_ge (brk p) new with hgrow | hshrink
  · rw [if_neg (by omega), (h.ceilp_eq (show brk p ≤ _ by omega) (by omega)).1]
    obtain ⟨hceil, hle⟩ := h.ceilp_eq hhi (by omega)
    rw [hceil]
    have hps := pagesize_pos h.works
    rcases Nat.lt_or_ge (pageUp ps (brk p)) (pageUp ps new) with hpages | hpages
    · right
      refine ⟨hpages, ?_⟩
      have hmul := Nat.mul_lt_mul_of_pos_right hpages hps
      rw [if_pos ⟨hgrow, hmul⟩, sub64_eq hmul.le (hle.trans_lt h.works.region.lt), ← Nat.sub_mul]
      rfl
    · left
      refine ⟨hpages, ?_⟩
      have hmul := Nat.mul_le_mul_right ps hpages
      rw [if_neg fun hand => absurd hand.2 (not_lt.mpr hmul)]
  · left
    refine ⟨pageUp_mono hshrink, ?_⟩
    split
    · rename_i heq
      rw [heq]
    · rw [if_neg fun hand => absurd hand.1 (by omega)]

/-- The pages that a call maps to move the break to `new`. -/
def GrowthPage (e : Engine) (p : LFILinuxProc) (new k : Nat) : Prop :=
  pageUp e.opts.pagesize (brk p) ≤ k ∧ k < pageUp e.opts.pagesize new

/-- The host makes the new mapping, once what was mapped there is taken away. -/
def HostMaps (e : Engine) (p : LFILinuxProc) (new : Nat) : Prop :=
  let ps := e.opts.pagesize
  MapsRet e (unmapped e p.box p.host (pageUp ps (brk p) * ps)
    ((pageUp ps new - pageUp ps (brk p)) * ps))

/-- The record of a page of the break. -/
def brkInfo : MapInfo := ⟨MAP_PROT, MAP_FLAGS, -1, 0⟩

/-- Nothing changes but the pages for which `moved` holds. -/
structure Elsewhere (e : Engine) (moved : Nat → Prop) (box box' : LFIBox) (h h' : Host) : Prop where
  pages : ∀ k, ¬moved k → h'.mem.pages k = h.mem.pages k
  table : ∀ k, ¬moved k → box'.mm.table k = box.mm.table k
  bytes : ∀ a, ¬moved (a / e.opts.pagesize) →
    h'.mem.read e.opts.pagesize a = h.mem.read e.opts.pagesize a

theorem hostProt_mapProt (t : Target) : hostProt t MAP_PROT = Prot.readWrite := by
  have hbti : has MAP_PROT LFI_PROT_BTI = false := by decide
  rw [hostProt, hbti, Bool.and_false]
  rfl

/-- Either the host maps the new pages, which are zero, or it does not, and they are
free. -/
theorem growth_cases (h : Bounds e r o p) (hhi : n ≤ p.brkbase + o.brkmaxsize)
    (hpages : pageUp e.opts.pagesize (brk p) < pageUp e.opts.pagesize n) :
    let u := growth e p n
    Works e r u.2.1 ∧ Elsewhere e (GrowthPage e p n) p.box u.2.1 p.host u.2.2 ∧
      (u.1.isSome = true ∧ HostMaps e p n ∧
          (∀ k, GrowthPage e p n k →
            u.2.2.mem.pages k = some ⟨Prot.readWrite, .priv⟩ ∧ u.2.1.mm.table k = some brkInfo) ∧
          (∀ a, GrowthPage e p n (a / e.opts.pagesize) →
            u.2.2.mem.read e.opts.pagesize a = 0) ∨
        u.1 = none ∧ ¬HostMaps e p n ∧ ∀ k, GrowthPage e p n k → u.2.1.mm.table k = none) := by
  intro u
  have hb := h.works.region
  have hps := pagesize_pos h.works
  have hlo := h.lo
  have hdef : brk p = p.brkbase + p.brksize := rfl
  have hlt := lt_of_pageUp_lt hpages
  have hmax := (h.ceilp_eq hhi (by omega)).2
  have hmin := le_pageUp hps (brk p)
  have hle := hpages.le
  have hmul := Nat.mul_le_mul_right e.opts.pagesize hle
  have hsum : pageUp e.opts.pagesize (brk p) +
      (pageUp e.opts.pagesize n - pageUp e.opts.pagesize (brk p)) = pageUp e.opts.pagesize n :=
    Nat.add_sub_cancel' hle
  have hgrow : GrowthPage e p n = fun k =>
      pageUp e.opts.pagesize (brk p) ≤ k ∧ k < pageUp e.opts.pagesize n := rfl
  simp only [u, growth, lfiBoxMapat, HostMaps, hgrow]
  clear hgrow
  generalize pageUp e.opts.pagesize (brk p) = start at *
  generalize pageUp e.opts.pagesize n = stop at *
  generalize hm : stop - start = m at *
  subst hsum
  have hpos : 0 < m := by omega
  have hroom : m * e.opts.pagesize ≤ p.box.max - start * e.opts.pagesize := by
    rw [Nat.add_mul] at hmax
    omega
  have hbuf : lfiBoxBufvalid p.box (start * e.opts.pagesize) (m * e.opts.pagesize) = true := by
    simp only [lfiBoxBufvalid, Bool.and_eq_true, decide_eq_true_eq]
    exact ⟨⟨by omega, by omega⟩, hroom⟩
  have hsize : 0 < m * e.opts.pagesize := Nat.mul_pos hpos hps
  have hacc := hb.accepts hbuf hsize (Nat.dvd_mul_left _ _)
  have hfirst : start * e.opts.pagesize / r.pagesize = start := by
    rw [← hb.pagesize, Nat.mul_div_cancel _ hps]
  have hcount : r.pages (m * e.opts.pagesize) = m := by rw [hb.pagesize, r.pages_mul]
  have hspan : ∀ k, InSpan e.opts.pagesize (start * e.opts.pagesize) (m * e.opts.pagesize) k ↔
      start ≤ k ∧ k < start + m := by
    intro k
    rw [hb.inSpan_iff (Nat.dvd_mul_left _ _), hfirst, hcount]
  rcases mapat_cases h.works p.host (start * e.opts.pagesize) (m * e.opts.pagesize) MAP_PROT
      MAP_FLAGS (-1) 0 with ⟨-, href⟩ | ⟨-, -, hcases⟩
  · exact absurd ⟨hbuf, hacc⟩ href
  rw [mapverify_eq_mapmem (by decide)] at hcases
  have hend : start * e.opts.pagesize + m * e.opts.pagesize ≤ 2 ^ 64 := by
    have := hb.lt
    omega
  obtain ⟨hmaps, hnew, -⟩ := @mapmem_anon e (unmapped e p.box p.host (start * e.opts.pagesize)
    (m * e.opts.pagesize)) _ _ MAP_PROT (-1) 0 (Nat.mul_mod_left _ _) hsize hend
  have helse : ∀ {entry box' h'}, Sets e r p.box p.host (start * e.opts.pagesize)
      (m * e.opts.pagesize) entry box' h' →
      Elsewhere e (fun k => start ≤ k ∧ k < start + m) p.box box' p.host h' ∧
        ∀ k, start ≤ k ∧ k < start + m → box'.mm.table k = entry := by
    intro entry box' h' hset
    have htable := hset.table
    rw [hfirst, hcount] at htable
    refine ⟨⟨fun k hk => ?_, fun k hk => ?_, fun a ha => ?_⟩, fun k hk => ?_⟩
    · exact hset.within.pages k fun hin => hk ((hspan k).mp hin)
    · rw [htable, Table.set, if_neg hk]
    · exact hset.within.bytes a fun hin => ha ((hspan _).mp hin)
    · rw [htable, Table.set, if_pos hk]
  rcases hcases with ⟨hok, haddr, hset, hhost⟩ | ⟨hfail, hnone, hset, -⟩
  · obtain ⟨hsame, htable⟩ := helse hset
    refine ⟨hset.works, hsame, .inl ⟨by rw [haddr]; rfl, hmaps.mp hok, fun k hk => ?_,
      fun a ha => ?_⟩⟩
    · have hfirstaddr : k * e.opts.pagesize / e.opts.pagesize = k := Nat.mul_div_cancel _ hps
      have hpage := (hnew hok (k * e.opts.pagesize) (by rwa [hfirstaddr, hspan])).2
      rw [hfirstaddr, hostProt_mapProt, ← hhost] at hpage
      exact ⟨hpage, htable k hk⟩
    · have hzero := (hnew hok a ((hspan _).mpr ha)).1
      rwa [← hhost] at hzero
  · obtain ⟨hsame, htable⟩ := helse hset
    refine ⟨hset.works, hsame, .inr ⟨hnone, fun hok => ?_, htable⟩⟩
    rw [hmaps.mpr hok] at hfail
    cases hfail

/-! One call. -/

/-- The pages below the break are mapped for reading and writing. -/
structure Heap (e : Engine) (r : Region) (o : LFILinuxOptions) (p : LFILinuxProc) : Prop
    extends Bounds e r o p where
  heap : ∀ k, p.brkbase / e.opts.pagesize ≤ k → k < pageUp e.opts.pagesize (brk p) →
    p.host.mem.pages k = some ⟨Prot.readWrite, .priv⟩ ∧ p.box.mm.table k = some brkInfo

/-- What every call keeps, whether it succeeds or fails. -/
structure BrkSafe (e : Engine) (o : LFILinuxOptions) (p : LFILinuxProc) (res : Option Nat)
    (p' : LFILinuxProc) : Prop where
  base : p'.brkbase = p.brkbase
  size_le : p'.brksize ≤ o.brkmaxsize
  mapped : ∀ k, p'.brkbase / e.opts.pagesize ≤ k → k < pageUp e.opts.pagesize (brk p') →
    p'.host.mem.pages k = some ⟨Prot.readWrite, .priv⟩ ∧
      lfiBoxMquery p'.box (k * e.opts.pagesize) = some brkInfo
  untouched : ∀ a, pageUp e.opts.pagesize (p.brkbase + o.brkmaxsize) * e.opts.pagesize ≤ a →
    p'.host.mem.pages (a / e.opts.pagesize) = p.host.mem.pages (a / e.opts.pagesize) ∧
      lfiBoxMquery p'.box a = lfiBoxMquery p.box a ∧
      p'.host.mem.read e.opts.pagesize a = p.host.mem.read e.opts.pagesize a
  kept : ∀ a, a < min (brk p) (brk p') →
    p'.host.mem.read e.opts.pagesize a = p.host.mem.read e.opts.pagesize a
  zero : ∀ a, pageUp e.opts.pagesize (brk p) * e.opts.pagesize ≤ a → a < brk p' →
    p'.host.mem.read e.opts.pagesize a = 0
  result : ∀ v, res = some v → v = brk p'

/-- With it, a call that fails changes nothing. -/
structure BrkOk (e : Engine) (o : LFILinuxOptions) (p : LFILinuxProc) (addr : Nat) : Prop where
  safe : BrkSafe e o p (sysBrk e o p addr).1 (sysBrk e o p addr).2
  failed : (sysBrk e o p addr).1 = none →
    (sysBrk e o p addr).2.brksize = p.brksize ∧
      Unchanged e ⟨p.box, p.host⟩ ⟨(sysBrk e o p addr).2.box, (sysBrk e o p addr).2.host⟩

theorem Heap.step (h : Heap e r o p) (new : Nat) (p' : LFILinuxProc) (hworks : Works e r p'.box)
    (helse : Elsewhere e (GrowthPage e p new) p.box p'.box p.host p'.host)
    (hbase : p'.brkbase = p.brkbase) (hsize : p'.brksize ≤ o.brkmaxsize)
    (hnew : new ≤ p.brkbase + o.brkmaxsize)
    (hgrown : ∀ k, pageUp e.opts.pagesize (brk p) ≤ k → k < pageUp e.opts.pagesize (brk p') →
      p'.host.mem.pages k = some ⟨Prot.readWrite, .priv⟩ ∧ p'.box.mm.table k = some brkInfo)
    (hzero : ∀ a, pageUp e.opts.pagesize (brk p) ≤ a / e.opts.pagesize → a < brk p' →
      p'.host.mem.read e.opts.pagesize a = 0)
    (res : Option Nat) (hres : ∀ v, res = some v → v = brk p') :
    Heap e r o p' ∧ BrkSafe e o p res p' := by
  have hps := pagesize_pos h.works
  have hb := hworks.region
  have hdef : brk p = p.brkbase + p.brksize := rfl
  have hheap : ∀ k, p'.brkbase / e.opts.pagesize ≤ k → k < pageUp e.opts.pagesize (brk p') →
      p'.host.mem.pages k = some ⟨Prot.readWrite, .priv⟩ ∧ p'.box.mm.table k = some brkInfo := by
    intro k hlo hhi
    rcases Nat.lt_or_ge k (pageUp e.opts.pagesize (brk p)) with hlt | hge
    · have hnot : ¬GrowthPage e p new k := fun hin => absurd hin.1 (not_le.mpr hlt)
      rw [helse.pages k hnot, helse.table k hnot]
      exact h.heap k (hbase ▸ hlo) hlt
    · exact hgrown k hge hhi
  have hmin : p'.box.min = p.box.min := by rw [hb.lo, h.works.region.lo]
  have hmax : p'.box.max = p.box.max := by rw [hb.hi, h.works.region.hi]
  refine ⟨⟨⟨hworks, ?_, ?_, ?_, hsize⟩, hheap⟩, ⟨hbase, hsize, ?_, ?_, ?_, ?_, hres⟩⟩
  · rw [hmin, hbase]
    exact h.lo
  · rw [hmax, hbase]
    exact h.hi
  · rw [hbase]
    exact h.aligned
  · intro k hlo hhi
    rw [hb.mquery_eq hworks.mapper, Nat.mul_div_cancel _ hps]
    exact hheap k hlo hhi
  · intro a ha
    have hnot : ¬GrowthPage e p new (a / e.opts.pagesize) := by
      intro hin
      have hpage := (Nat.le_div_iff_mul_le hps).mpr ha
      exact absurd (hpage.trans_lt hin.2) (not_lt.mpr (pageUp_mono hnew))
    refine ⟨helse.pages _ hnot, ?_, helse.bytes a hnot⟩
    rw [hb.mquery_eq hworks.mapper, h.works.region.mquery_eq h.works.mapper, helse.table _ hnot]
  · intro a ha
    refine helse.bytes a fun hin => ?_
    have hpage := (pageUp_le_iff hps).mp hin.1
    have hdiv := Nat.div_mul_le_self a e.opts.pagesize
    omega
  · intro a hlo hhi
    exact hzero a ((Nat.le_div_iff_mul_le hps).mpr hlo) hhi

theorem Elsewhere.refl (e : Engine) (moved : Nat → Prop) (box : LFIBox) (h : Host) :
    Elsewhere e moved box box h h := ⟨fun _ _ => rfl, fun _ _ => rfl, fun _ _ => rfl⟩

/-- A call that maps nothing, with the break at `new` afterwards. -/
theorem Heap.still (h : Heap e r o p) (new : Nat) (hlo : p.brkbase ≤ new)
    (hhi : new ≤ p.brkbase + o.brkmaxsize)
    (hpages : pageUp e.opts.pagesize new ≤ pageUp e.opts.pagesize (brk p)) (res : Option Nat)
    (hres : ∀ v, res = some v → v = new) :
    Heap e r o { p with brksize := new - p.brkbase } ∧
      BrkSafe e o p res { p with brksize := new - p.brkbase } := by
  have hnew : brk { p with brksize := new - p.brkbase } = new := Nat.add_sub_cancel' hlo
  have hps := pagesize_pos h.works
  refine h.step new { p with brksize := new - p.brkbase } h.works (.refl _ _ _ _) rfl ?_ hhi ?_ ?_
    res ?_
  · exact Nat.sub_le_iff_le_add'.mpr hhi
  · intro k hk hk'
    rw [hnew] at hk'
    omega
  · intro a ha ha'
    rw [hnew] at ha'
    have hlt : a / e.opts.pagesize < pageUp e.opts.pagesize new :=
      (lt_pageUp_iff hps).mpr ((Nat.div_mul_le_self _ _).trans_lt ha')
    omega
  · rw [hnew]
    exact hres

/-- Every call keeps the region of the break consistent. -/
theorem sysBrk_safe (h : Heap e r o p) (addr : Nat) :
    Heap e r o (sysBrk e o p addr).2 ∧
      BrkSafe e o p (sysBrk e o p addr).1 (sysBrk e o p addr).2 := by
  have hps := pagesize_pos h.works
  obtain ⟨hlo, hhi⟩ := request_bounds o p addr
  have hsize := h.size_le
  have hsame : { p with brksize := brk p - p.brkbase } = p := by rw [Nat.add_sub_cancel_left]
  have hstill := h.still (brk p) (Nat.le_add_right _ _) (Nat.add_le_add_left hsize _) le_rfl none
    fun _ hv => nomatch hv
  rw [hsame] at hstill
  rcases sysBrk_cases h.toBounds addr with ⟨-, heq⟩ | ⟨-, ⟨hpages, heq⟩ | ⟨hpages, heq⟩⟩
  · rw [heq]
    exact hstill
  · rw [heq]
    exact h.still _ hlo hhi hpages _ fun v hv => (Option.some.inj hv).symm
  · rw [heq]
    obtain ⟨hworks, helse, ⟨hok, -, hgrown, hzero⟩ | ⟨hnone, -, -⟩⟩ :=
      growth_cases h.toBounds hhi hpages
    · rw [if_neg (by simpa using Option.isSome_iff_ne_none.mp hok)]
      have hnew : p.brkbase + (request o p addr - p.brkbase) = request o p addr :=
        Nat.add_sub_cancel' hlo
      refine h.step _ { p with
        box := (growth e p (request o p addr)).2.1, host := (growth e p (request o p addr)).2.2,
        brksize := request o p addr - p.brkbase } hworks helse rfl ?_ hhi ?_ ?_ _ ?_
      · exact Nat.sub_le_iff_le_add'.mpr hhi
      · intro k hk hk'
        exact hgrown k ⟨hk, by rwa [brk, hnew] at hk'⟩
      · intro a ha ha'
        rw [brk, hnew] at ha'
        exact hzero a ⟨ha, (lt_pageUp_iff hps).mpr ((Nat.div_mul_le_self _ _).trans_lt ha')⟩
      · rintro v hv
        rw [brk, hnew]
        exact (Option.some.inj hv).symm
    · rw [if_pos (by rw [hnone]; rfl)]
      refine h.step _ { p with
        box := (growth e p (request o p addr)).2.1, host := (growth e p (request o p addr)).2.2 }
        hworks helse rfl hsize hhi ?_ ?_ none ?_
      · intro k hk hk'
        exact absurd hk' (not_lt.mpr hk)
      · intro a ha ha'
        have hlt := (lt_pageUp_iff hps).mpr ((Nat.div_mul_le_self a e.opts.pagesize).trans_lt ha')
        exact absurd hlt (not_lt.mpr ha)
      · exact fun _ hv => nomatch hv

/-- The host maps the pages that the call needs, if it needs any. -/
def GrowthMaps (e : Engine) (o : LFILinuxOptions) (p : LFILinuxProc) (addr : Nat) : Prop :=
  (addr = 0 ∨ lfiBoxPtrvalid p.box addr = true) →
    pageUp e.opts.pagesize (brk p) < pageUp e.opts.pagesize (request o p addr) →
      HostMaps e p (request o p addr)

/-- The pages of the region are in the record of the box. -/
def Reserved (e : Engine) (o : LFILinuxOptions) (p : LFILinuxProc) : Prop :=
  ∀ k, p.brkbase / e.opts.pagesize ≤ k →
    k < pageUp e.opts.pagesize (p.brkbase + o.brkmaxsize) → p.box.mm.table k ≠ none

/-- In a region that is reserved, a call keeps to the contract exactly when the host maps
the pages it needs. -/
theorem brkOk_iff (h : Heap e r o p) (hres : Reserved e o p) (addr : Nat) :
    BrkOk e o p addr ↔ GrowthMaps e o p addr := by
  have hps := pagesize_pos h.works
  obtain ⟨hlo, hhi⟩ := request_bounds o p addr
  have hsafe := (sysBrk_safe h addr).2
  rcases sysBrk_cases h.toBounds addr with ⟨href, heq⟩ | ⟨hvalid, ⟨hpages, heq⟩ | ⟨hpages, heq⟩⟩
  · refine iff_of_true ⟨hsafe, fun _ => ?_⟩ ?_
    · rw [heq]
      exact ⟨rfl, .refl e _⟩
    · rintro (hzero | hptr)
      · exact absurd hzero href.1
      · rw [href.2] at hptr
        cases hptr
  · refine iff_of_true ⟨hsafe, fun hnone => ?_⟩ fun _ hlt => absurd hlt (not_lt.mpr hpages)
    rw [heq] at hnone
    cases hnone
  · have hcall : addr = 0 ∨ lfiBoxPtrvalid p.box addr = true := by
      rw [← Bool.not_eq_false]
      tauto
    obtain ⟨hworks, -, ⟨hok, hmaps, -⟩ | ⟨hnone, hmaps, hfree⟩⟩ := growth_cases h.toBounds hhi hpages
    · refine iff_of_true ⟨hsafe, fun hfail => ?_⟩ fun _ _ => hmaps
      rw [heq, if_neg (by simpa using Option.isSome_iff_ne_none.mp hok)] at hfail
      cases hfail
    · refine iff_of_false (fun hbrk => ?_) fun hall => hmaps (hall hcall hpages)
      -- the first new page was reserved, and is free now
      have heq' := heq.trans (if_pos (by rw [hnone]; rfl))
      have hsame := (hbrk.failed (by rw [heq'])).2.mquery
      rw [heq'] at hsame
      have hup := le_pageUp hps (brk p)
      have hbase := h.lo
      have hle : p.brkbase ≤ brk p := Nat.le_add_right _ _
      have hlt := lt_of_pageUp_lt hpages
      obtain ⟨-, hmax⟩ := h.ceilp_eq hhi (by omega)
      have hk := hsame (pageUp e.opts.pagesize (brk p) * e.opts.pagesize) (by dsimp only; omega)
        ((Nat.mul_lt_mul_of_pos_right hpages hps).trans_le hmax)
      dsimp only at hk
      rw [hworks.region.mquery_eq hworks.mapper, h.works.region.mquery_eq h.works.mapper,
        Nat.mul_div_cancel _ hps, hfree _ ⟨le_rfl, hpages⟩] at hk
      refine hres _ ?_ (hpages.trans_le (pageUp_mono hhi)) hk.symm
      refine (Nat.div_le_div_right hle).trans ((Nat.div_le_iff_le_mul_add_pred hps).mpr ?_)
      rw [Nat.mul_comm]
      omega

/-! Runs. -/

inductive Label
  | brk (addr : Nat)
  | other

/-- A call of the program, or anything else that keeps away from the region: stores, and
calls on other memory. -/
def Step (e : Engine) (r : Region) (o : LFILinuxOptions) (p : LFILinuxProc) :
    Label → LFILinuxProc → Prop
  | .brk addr, p' => p' = (sysBrk e o p addr).2
  | .other, p' =>
    p'.brkbase = p.brkbase ∧ p'.brksize = p.brksize ∧ Works e r p'.box ∧
      ∀ k, p.brkbase / e.opts.pagesize ≤ k →
        k < pageUp e.opts.pagesize (p.brkbase + o.brkmaxsize) →
          p'.host.mem.pages k = p.host.mem.pages k ∧ p'.box.mm.table k = p.box.mm.table k

/-- The condition on a step. -/
def Meets (e : Engine) (o : LFILinuxOptions) (p : LFILinuxProc) : Label → Prop
  | .brk addr => GrowthMaps e o p addr
  | .other => True

theorem Heap.keep {l : Label} (h : Heap e r o p) (hstep : Step e r o p l p') : Heap e r o p' := by
  cases l with
  | brk addr =>
      obtain rfl := hstep
      exact (sysBrk_safe h addr).1
  | other =>
      obtain ⟨hbase, hsize, hworks, hsame⟩ := hstep
      have hb := hworks.region
      have hmin : p'.box.min = p.box.min := by rw [hb.lo, h.works.region.lo]
      have hmax : p'.box.max = p.box.max := by rw [hb.hi, h.works.region.hi]
      refine ⟨⟨hworks, ?_, ?_, ?_, ?_⟩, ?_⟩
      · rw [hmin, hbase]
        exact h.lo
      · rw [hmax, hbase]
        exact h.hi
      · rw [hbase]
        exact h.aligned
      · rw [hsize]
        exact h.size_le
      · intro k hlo hhi
        rw [hbase] at hlo
        rw [brk, hbase, hsize] at hhi
        obtain ⟨hpages, htable⟩ := hsame k hlo
          (hhi.trans_le (pageUp_mono (Nat.add_le_add_left h.size_le _)))
        rw [hpages, htable]
        exact h.heap k hlo hhi

theorem Reserved.keep {l : Label} (hres : Reserved e o p) (h : Heap e r o p)
    (hmeets : Meets e o p l) (hstep : Step e r o p l p') : Reserved e o p' := by
  cases l with
  | brk addr =>
      obtain rfl := hstep
      obtain ⟨-, hhi⟩ := request_bounds o p addr
      rcases sysBrk_cases h.toBounds addr with ⟨-, heq⟩ | ⟨hvalid, ⟨-, heq⟩ | ⟨hpages, heq⟩⟩
      · rw [heq]
        exact hres
      · rw [heq]
        exact hres
      · have hcall : addr = 0 ∨ lfiBoxPtrvalid p.box addr = true := by
          rw [← Bool.not_eq_false]
          tauto
        obtain ⟨-, helse, ⟨hok, -, hgrown, -⟩ | ⟨-, hmaps, -⟩⟩ := growth_cases h.toBounds hhi hpages
        · rw [heq, if_neg (by simpa using Option.isSome_iff_ne_none.mp hok)]
          intro k hlo hhi'
          by_cases hk : GrowthPage e p (request o p addr) k
          · rw [(hgrown k hk).2]
            exact Option.some_ne_none _
          · rw [helse.table k hk]
            exact hres k hlo hhi'
        · exact absurd (hmeets hcall hpages) hmaps
  | other =>
      obtain ⟨hbase, -, -, hsame⟩ := hstep
      intro k hlo hhi
      rw [hbase] at hlo hhi
      rw [(hsame k hlo hhi).2]
      exact hres k hlo hhi

/-- The image ends at a page of the box. -/
structure EndsInBox (e : Engine) (p : LFILinuxProc) : Prop where
  lo : p.box.min ≤ p.elfinfo.lastva
  hi : p.elfinfo.lastva ≤ p.box.max
  aligned : e.opts.pagesize ∣ p.elfinfo.lastva

/-- The region of a process that has been loaded is reserved, with the break at its
start. -/
theorem heap_of_reserveBrk (hw : Works e r p.box) (hva : EndsInBox e p)
    (hload : reserveBrk e o p = (true, p')) : Heap e r o p' ∧ Reserved e o p' := by
  have hps := pagesize_pos hw
  have hempty : pageUp e.opts.pagesize p.elfinfo.lastva ≤ p.elfinfo.lastva / e.opts.pagesize :=
    (pageUp_le_iff hps).mpr (Nat.div_mul_cancel hva.aligned).ge
  rw [reserveBrk] at hload
  split at hload
  · rename_i hpos
    obtain ⟨hok, rfl⟩ := Prod.mk.inj hload
    dsimp only at hok
    rcases mapat_cases hw p.host p.elfinfo.lastva o.brkmaxsize LFI_PROT_NONE MAP_FLAGS (-1) 0 with
      ⟨heq, -⟩ | ⟨hbuf, hacc, ⟨-, -, hset, -⟩ | ⟨-, hnone, -⟩⟩
    · rw [lfiBoxMapat, heq] at hok
      cases hok
    · obtain ⟨mm, hmm⟩ := hset.box_eq
      simp only [lfiBoxBufvalid, Bool.and_eq_true, decide_eq_true_eq] at hbuf
      have htable := hset.table
      have hworks := hset.works
      rw [lfiBoxMapat, hmm]
      rw [hmm] at htable hworks
      refine ⟨⟨⟨hworks, hva.lo, by dsimp only; omega, hva.aligned, Nat.zero_le _⟩, ?_⟩, ?_⟩
      · intro k hlo hhi
        exact absurd (hempty.trans hlo) (not_le.mpr hhi)
      · intro k hlo hhi
        have hspan := (hw.region.inSpan_iff hva.aligned).mp
          (show InSpan e.opts.pagesize p.elfinfo.lastva o.brkmaxsize k from ⟨hlo, hhi⟩)
        rw [htable, Table.set, if_pos hspan]
        exact Option.some_ne_none _
    · rw [lfiBoxMapat, hnone] at hok
      cases hok
  · rename_i hzero
    obtain ⟨-, rfl⟩ := Prod.mk.inj hload
    have hmax : o.brkmaxsize = 0 := by omega
    refine ⟨⟨⟨hw, hva.lo, ?_, hva.aligned, Nat.zero_le _⟩, ?_⟩, ?_⟩
    · rw [hmax]
      exact hva.hi
    · intro k hlo hhi
      exact absurd (hempty.trans hlo) (not_le.mpr hhi)
    · intro k hlo hhi
      rw [hmax] at hhi
      exact absurd (hempty.trans hlo) (not_le.mpr hhi)

/-- Over any run the region stays consistent, and in a run whose calls all get the pages
they need, a further call keeps to the whole contract exactly when it gets them too. -/
theorem brk_consistent (hw : Works e r p.box) (hva : EndsInBox e p)
    (hload : reserveBrk e o p = (true, p')) :
    (∀ q, Reaches (Step e r o) anyStep p' q → ∀ addr,
      BrkSafe e o q (sysBrk e o q addr).1 (sysBrk e o q addr).2) ∧
    ∀ q, Reaches (Step e r o) (Meets e o) p' q → ∀ addr,
      BrkOk e o q addr ↔ GrowthMaps e o q addr := by
  obtain ⟨hheap, hres⟩ := heap_of_reserveBrk hw hva hload
  constructor
  · intro q hrun addr
    have hq : Heap e r o q := hrun.invariant hheap fun _ _ _ h _ hstep => h.keep hstep
    exact (sysBrk_safe hq addr).2
  · intro q hrun addr
    have hq : Heap e r o q ∧ Reserved e o q := by
      refine @Reaches.invariant _ _ _ _ (fun q => Heap e r o q ∧ Reserved e o q) _ _ hrun
        ⟨hheap, hres⟩ ?_
      rintro _ _ _ ⟨h, hres⟩ hmeets hstep
      exact ⟨h.keep hstep, hres.keep h hmeets hstep⟩
    exact brkOk_iff hq.1 hq.2 addr

/-- A process whose image ends at the second page of its box. -/
def smallProc (outcomes : List Outcome) : LFILinuxProc where
  box := emptyBox
  host := { reservedHost with outcomes := outcomes }
  heap := .empty
  entry := 0
  elfinfo := ⟨emptyBox.min + 4096, 0, 0, 0, 0, 0, 0, 0⟩
  dynsym := .zero
  dynstr := .zero
  libsyms := ⟨0, 0, 0, 0, 0, 0, 0⟩
  brkbase := 0
  brksize := 0

/-- Options for a break of three pages. -/
def smallBrk : LFILinuxOptions := ⟨true, 12288⟩

theorem works_emptyBox : ∃ r, Works nopEngine r emptyBox := by
  obtain ⟨r, hb, hm, -⟩ := boxRegion_new placed_nopEngine lfiBoxNew_nopEngine
  exact ⟨r, hb, hm⟩

theorem endsInBox_smallProc (outcomes : List Outcome) : EndsInBox nopEngine (smallProc outcomes) :=
  ⟨Nat.le_add_right _ _, show emptyBox.min + 4096 ≤ emptyBox.max by decide,
    show 4096 ∣ emptyBox.min + 4096 by decide⟩

theorem smallProc_consistent : ∃ r,
    (∀ q, Reaches (Step nopEngine r smallBrk) anyStep
      (reserveBrk nopEngine smallBrk (smallProc [])).2 q → ∀ addr,
        BrkSafe nopEngine smallBrk q (sysBrk nopEngine smallBrk q addr).1
          (sysBrk nopEngine smallBrk q addr).2) ∧
    ∀ q, Reaches (Step nopEngine r smallBrk) (Meets nopEngine smallBrk)
      (reserveBrk nopEngine smallBrk (smallProc [])).2 q → ∀ addr,
        BrkOk nopEngine smallBrk q addr ↔ GrowthMaps nopEngine smallBrk q addr := by
  obtain ⟨r, hw⟩ := works_emptyBox
  have hload : reserveBrk nopEngine smallBrk (smallProc []) =
      (true, (reserveBrk nopEngine smallBrk (smallProc [])).2) := Prod.ext (by decide) rfl
  exact ⟨r, brk_consistent hw (endsInBox_smallProc []) hload⟩

/-- The host takes the reserved page away, and does not map it again. The call fails, and
the page is free. -/
theorem failed_growth_loses_reservation :
    let p := smallProc [.ok, .ok, .fail 0]
    let q := (reserveBrk nopEngine smallBrk p).2
    (∃ r, Works nopEngine r p.box) ∧ EndsInBox nopEngine p ∧
      (reserveBrk nopEngine smallBrk p).1 = true ∧
        (sysBrk nopEngine smallBrk q (q.brkbase + 1)).1 = none ∧
          ¬BrkOk nopEngine smallBrk q (q.brkbase + 1) := by
  intro p q
  have hfail : (sysBrk nopEngine smallBrk q (q.brkbase + 1)).1 = none := by decide
  refine ⟨works_emptyBox, endsInBox_smallProc _, by decide, hfail, fun hok => ?_⟩
  have hbefore : lfiBoxMquery q.box q.brkbase ≠ none := by decide
  have hafter :
      lfiBoxMquery (sysBrk nopEngine smallBrk q (q.brkbase + 1)).2.box q.brkbase = none := by
    decide +kernel
  have hsame := (hok.failed hfail).2.mquery q.brkbase (by decide) (by decide)
  dsimp only at hsame
  rw [hafter] at hsame
  exact hbefore hsame.symm

end LfiRuntime.Brk
