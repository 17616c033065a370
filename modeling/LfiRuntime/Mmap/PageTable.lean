import LfiRuntime.Lib.Runs
import LfiRuntime.Mmap.AddrSpace
import LfiRuntime.Mmap.RangeMapFunction

/-!
What the memory mapper is for: a table from the pages of a region to the
mappings they belong to. The mapper of `mmap.cpp` runs as this table does.
-/

namespace LfiRuntime.Mmap

open LfiRuntime.RangeMap
open LfiRuntime.Runs

/-- A table of the mapped pages. -/
abbrev Table := Nat → Option MapInfo

/-- A region of `len` pages of `2 ^ p2` bytes from page `base` on. -/
structure Region where
  base : Nat
  len : Nat
  p2 : Nat
deriving DecidableEq, Repr

namespace Region

variable (r : Region)

def pagesize : Nat := 2 ^ r.p2

/-- A byte count, rounded up to pages. -/
def pages (len : Nat) : Nat := (len + r.pagesize - 1) / r.pagesize

def Contains (start n : Nat) : Prop := r.base ≤ start ∧ start + n ≤ r.base + r.len

/-- The addresses of the region are 64-bit numbers, and so is the page number
after it. -/
def Fits : Prop := (r.base + r.len) * r.pagesize ≤ 2 ^ 64 ∧ r.base + r.len < 2 ^ 64

/-- Byte `addr` starts a page, and the bytes `[addr, addr + len)` are some and
lie in the region. -/
def Accepts (addr len : Nat) : Prop :=
  r.pagesize ∣ addr ∧ 0 < len ∧ r.Contains (addr / r.pagesize) (r.pages len)

end Region

namespace Table

def empty : Table := fun _ => none

def Free (T : Table) (start n : Nat) : Prop := ∀ k, start ≤ k → k < start + n → T k = none

/-- Give the pages `[start, start + n)` an entry, or take it away. -/
def set (T : Table) (start n : Nat) (info : Option MapInfo) : Table := fun k =>
  if start ≤ k ∧ k < start + n then info else T k

/-- Change the protection of the pages `[start, start + n)` that are mapped. -/
def protect (T : Table) (start n : Nat) (prot : BitVec 32) : Table := fun k =>
  if start ≤ k ∧ k < start + n then (T k).map fun info => { info with prot := prot } else T k

end Table

inductive Call
  | mapAny (hint len : Nat) (info : MapInfo)
  | mapAt (addr len : Nat) (info : MapInfo)
  | unmap (addr len : Nat)
  | protect (addr len : Nat) (prot : BitVec 32)
  | queryPage (addr : Nat)
  | enableAslr (seed : UInt64)
deriving DecidableEq, Repr

inductive Result
  | addr (a : Option Nat)
  | error (e : Error)
  | info (i : Option MapInfo)
  | unit
deriving DecidableEq, Repr

/-- What a call does to the table of a region, and what it returns. -/
def TableStep (r : Region) (T : Table) : Call × Result → Table → Prop
  | (.mapAny _ len _, .addr none), T' =>
      (len = 0 ∨ ∀ start, r.Contains start (r.pages len) → ¬T.Free start (r.pages len)) ∧
        T' = T
  | (.mapAny _ len info, .addr (some a)), T' =>
      0 < len ∧ ∃ start, a = start * r.pagesize ∧ r.Contains start (r.pages len) ∧
        T.Free start (r.pages len) ∧ T' = T.set start (r.pages len) (some info)
  | (.mapAt addr len _, .addr none), T' => ¬r.Accepts addr len ∧ T' = T
  | (.mapAt addr len info, .addr (some a)), T' =>
      r.Accepts addr len ∧ a = addr ∧
        T' = T.set (addr / r.pagesize) (r.pages len) (some info)
  | (.unmap addr len, .error .kOk), T' =>
      r.Accepts addr len ∧ T' = T.set (addr / r.pagesize) (r.pages len) none
  | (.unmap addr len, .error .kInval), T' => ¬r.Accepts addr len ∧ T' = T
  | (.protect addr len prot, .error .kOk), T' =>
      r.Accepts addr len ∧ T' = T.protect (addr / r.pagesize) (r.pages len) prot
  | (.protect addr len _, .error .kInval), T' => ¬r.Accepts addr len ∧ T' = T
  | (.queryPage addr, .info i), T' => i = T (addr / r.pagesize) ∧ T' = T
  | (.enableAslr _, .unit), T' => T' = T
  | _, _ => False

namespace Region

variable {r : Region} {start n len : Nat}

theorem pagesize_pos (r : Region) : 0 < r.pagesize := Nat.two_pow_pos _

theorem pages_pos (hlen : 0 < len) : 0 < r.pages len :=
  Nat.div_pos (by omega) r.pagesize_pos

theorem pages_mul (r : Region) (n : Nat) : r.pages (n * r.pagesize) = n := by
  have hps := r.pagesize_pos
  rw [pages, Nat.mul_comm, show r.pagesize * n + r.pagesize - 1 =
    r.pagesize * n + (r.pagesize - 1) by omega, Nat.mul_add_div hps,
    Nat.div_eq_of_lt (by omega), Nat.add_zero]

theorem Contains.lt (h : r.Contains start n) (hn : 0 < n) : start < r.base + r.len := by
  have := h.2
  omega

/-- A page of the region starts at a 64-bit address. -/
theorem Fits.mul_lt (h : r.Fits) (hstart : start < r.base + r.len) :
    start * r.pagesize < 2 ^ 64 :=
  (Nat.mul_lt_mul_of_pos_right hstart r.pagesize_pos).trans_le h.1

theorem Fits.add64_eq (h : r.Fits) (hin : r.Contains start n) : add64 start n = start + n :=
  Nat.mod_eq_of_lt (hin.2.trans_lt h.2)

end Region

namespace Table

variable {T : Table}

theorem set_set (start n : Nat) (i j : Option MapInfo) :
    (T.set start n i).set start n j = T.set start n j := by
  funext k
  by_cases hk : start ≤ k ∧ k < start + n <;> simp [set, hk]

end Table

/-- The table that a mapper stands for. -/
def AddrSpace.table (s : AddrSpace) : Table := toFun s.regions

/-- The range was the last one to be mapped. -/
def AddrSpace.Recorded (s : AddrSpace) (r : Region) (addr len : Nat) (info : MapInfo) : Prop :=
  ∃ regions, WellFormed regions ∧ s.regions =
    insert regions (addr / r.pagesize) (addr / r.pagesize + r.pages len) info

theorem AddrSpace.table_randState (s : AddrSpace) (state : UInt64) :
    { s with randState := state }.table = s.table := rfl

/-- A mapper of the region that has not failed. -/
structure Implements (r : Region) (s : AddrSpace) : Prop where
  base : s.base = r.base
  len : s.len = r.len
  p2 : s.p2pagesize = r.p2
  wellFormed : WellFormed s.regions
  inside : ∀ k, s.table k ≠ none → r.base ≤ k ∧ k < r.base + r.len
  running : s.terminated = false

namespace Implements

variable {r : Region} {s : AddrSpace} (h : Implements r s) {start n addr len : Nat}

include h

theorem toPage_eq (addr : Nat) : s.toPage addr = addr / r.pagesize := by
  rw [AddrSpace.toPage, Nat.shiftRight_eq_div_pow, h.p2, Region.pagesize]

theorem toPageCeil_eq (len : Nat) : s.toPageCeil len = r.pages len := by
  have hps := r.pagesize_pos
  have hdiv : len + r.pagesize - 1 =
      r.pagesize * (len / r.pagesize) + (len % r.pagesize + (r.pagesize - 1)) := by
    have := Nat.div_add_mod len r.pagesize
    omega
  rw [AddrSpace.toPageCeil, Nat.shiftRight_eq_div_pow, h.p2, Region.pages, hdiv,
    Nat.mul_add_div hps]
  change (if len % r.pagesize ≠ 0 then len / r.pagesize + 1 else len / r.pagesize) = _
  have hlt := Nat.mod_lt len hps
  split
  · rename_i hne
    have hone : (len % r.pagesize + (r.pagesize - 1)) / r.pagesize = 1 := by
      refine (Nat.div_eq_iff hps).mpr ?_
      omega
    rw [hone]
  · rename_i heq
    have hzero : (len % r.pagesize + (r.pagesize - 1)) / r.pagesize = 0 :=
      Nat.div_eq_of_lt (by omega)
    rw [hzero, Nat.add_zero]

theorem isValid_iff : s.isValid start n = true ↔ r.Contains start n := by
  rw [AddrSpace.isValid, h.base, h.len, Region.Contains]
  split
  · simp
    omega
  · split
    · simp
      omega
    · simp
      omega

theorem toAddr_eq (hf : r.Fits) (hstart : start < r.base + r.len) :
    s.toAddr start = start * r.pagesize := by
  rw [AddrSpace.toAddr, Nat.shiftLeft_eq, h.p2]
  exact Nat.mod_eq_of_lt (hf.mul_lt hstart)

theorem checkInRegion_eq (hin : r.Contains (addr / r.pagesize) (r.pages len)) :
    s.checkInRegion addr len = s := by
  rw [AddrSpace.checkInRegion, h.toPage_eq, h.toPageCeil_eq, if_pos (h.isValid_iff.mpr hin)]

/-- New regions for the mapper. -/
theorem of_regions {regions : List (Entry Nat MapInfo)} (hwf : WellFormed regions)
    (hin : ∀ k, toFun regions k ≠ none → s.table k ≠ none ∨ r.base ≤ k ∧ k < r.base + r.len) :
    Implements r { s with regions := regions } where
  base := h.base
  len := h.len
  p2 := h.p2
  wellFormed := hwf
  inside k hk := (hin k hk).elim (h.inside k) id
  running := h.running

/-- A draw of a random number changes the table in no way. -/
theorem of_randState (state : UInt64) : Implements r { s with randState := state } :=
  ⟨h.base, h.len, h.p2, h.wellFormed, h.inside, h.running⟩

theorem record_spec (hf : r.Fits) (hin : r.Contains start n) (info : MapInfo) :
    Implements r (s.record start n info) ∧
      (s.record start n info).table = s.table.set start n (some info) := by
  have htable : ∀ k, toFun (insert s.regions start (start + n) info) k =
      s.table.set start n (some info) k := fun k => toFun_insert h.wellFormed _ _ _ _
  rw [AddrSpace.record, hf.add64_eq hin]
  refine ⟨h.of_regions (wellFormed_insert h.wellFormed _ _ _) fun k hk => ?_, funext htable⟩
  rw [htable, Table.set] at hk
  split at hk
  · rename_i hks
    have := hin.1
    have := hin.2
    exact .inr ⟨by omega, by omega⟩
  · exact .inl hk

end Implements

/-! `find_free`. -/

theorem positions_le {n : Nat} (hn : 0 < n) (gap : Nat × Nat) :
    AddrSpace.positions n gap ≤ gap.2 - gap.1 := by
  rw [AddrSpace.positions]
  split <;> omega

/-- The positions that the gaps offer are no more than the pages of the range. -/
theorem sum_positions_le {n stop : Nat} (cursor : Nat) (hn : 0 < n) {es : List (Entry Nat MapInfo)}
    (hes : ∀ e ∈ es, e.start < e.stop) :
    ((gapsFrom stop cursor es).map (AddrSpace.positions n)).sum ≤ stop - cursor := by
  induction es generalizing cursor with
  | nil =>
      rw [gapsFrom]
      split
      · simpa using positions_le hn (cursor, stop)
      · simp
  | cons e es ih =>
      have hne := hes e List.mem_cons_self
      have htail : ∀ f ∈ es, f.start < f.stop := fun f hf => hes f (List.mem_cons_of_mem _ hf)
      rw [gapsFrom]
      split
      · rename_i hlt
        have hrest := ih (if cursor < e.stop then e.stop else cursor) htail
        have hgap := positions_le hn (cursor, e.start)
        rw [List.map_append, List.sum_append]
        split at hrest <;> split <;> simp at hgap ⊢ <;> omega
      · split
        · simpa using positions_le hn (cursor, stop)
        · simp

theorem randBelow_snd (s : AddrSpace) (n : Nat) :
    (s.randBelow n).2 = { s with randState := s.randState + 0x9E3779B97F4A7C15 } := rfl

theorem pick_spec {n : Nat} (hn : 0 < n) (gaps : List (Nat × Nat)) (idx : Nat)
    (hidx : idx < (gaps.map (AddrSpace.positions n)).sum) :
    ∃ start, AddrSpace.pick n idx gaps = some start ∧
      ∃ gap ∈ gaps, gap.1 ≤ start ∧ start + n ≤ gap.2 := by
  induction gaps generalizing idx with
  | nil => simp at hidx
  | cons gap gaps ih =>
      rw [List.map_cons, List.sum_cons] at hidx
      rw [AddrSpace.pick]
      split
      · rename_i hshort
        have hnone : AddrSpace.positions n gap = 0 := by
          rw [AddrSpace.positions, if_neg (by omega)]
        obtain ⟨start, hpick, g, hg, hin⟩ := ih idx (by omega)
        exact ⟨start, hpick, g, List.mem_cons_of_mem _ hg, hin⟩
      · rename_i hroom
        have hpos : AddrSpace.positions n gap = gap.2 - gap.1 - n + 1 := by
          rw [AddrSpace.positions, if_pos (by omega)]
        split
        · exact ⟨_, rfl, gap, List.mem_cons_self, by omega, by omega⟩
        · obtain ⟨start, hpick, g, hg, hin⟩ := ih (idx - AddrSpace.positions n gap) (by omega)
          exact ⟨start, hpick, g, List.mem_cons_of_mem _ hg, hin⟩

namespace Implements

variable {r : Region} {s : AddrSpace} (h : Implements r s) {start n addr len : Nat}

include h

theorem gaps_eq (hf : r.Fits) :
    getGaps s.regions s.base (add64 s.base s.len) =
      getGaps s.regions r.base (r.base + r.len) := by
  rw [h.base, h.len, hf.add64_eq ⟨le_refl _, le_refl _⟩]

/-- A gap that is wide enough offers a free place. -/
theorem free_of_gap {gap : Nat × Nat}
    (hgap : gap ∈ getGaps s.regions r.base (r.base + r.len)) (hlo : gap.1 ≤ start)
    (hhi : start + n ≤ gap.2) : r.Contains start n ∧ s.table.Free start n := by
  obtain ⟨hbase, hlt, hend, hfree⟩ := getGaps_sound h.wellFormed hgap
  refine ⟨⟨hbase.trans hlo, hhi.trans hend⟩, fun k hk hkn => ?_⟩
  exact hfree k (hlo.trans hk) (hkn.trans_le hhi)

theorem gap_of_free (hn : 0 < n) (hin : r.Contains start n) (hfree : s.table.Free start n) :
    ∃ gap ∈ getGaps s.regions r.base (r.base + r.len), n ≤ gap.2 - gap.1 := by
  obtain ⟨gap, hgap, hlo, hhi⟩ := getGaps_complete h.wellFormed hin.1
    (Nat.lt_add_of_pos_right hn) hin.2 hfree
  exact ⟨gap, hgap, by omega⟩

/-- `find_free` finds a place exactly when there is one. -/
theorem findFree_spec (hf : r.Fits) (hn : 0 < n) :
    (∃ start s', s.findFree n = (some start, s') ∧ Implements r s' ∧ s'.table = s.table ∧
        r.Contains start n ∧ s.table.Free start n) ∨
      s.findFree n = (none, s) ∧ ∀ start, r.Contains start n → ¬s.table.Free start n := by
  have hshort : (∀ gap ∈ getGaps s.regions r.base (r.base + r.len), gap.2 - gap.1 < n) →
      ∀ start, r.Contains start n → ¬s.table.Free start n := by
    intro hgaps start hin hfree
    obtain ⟨gap, hgap, hroom⟩ := h.gap_of_free hn hin hfree
    exact absurd (hgaps gap hgap) (not_lt.mpr hroom)
  rw [AddrSpace.findFree]
  simp only [h.gaps_eq hf]
  generalize hgaps : getGaps s.regions r.base (r.base + r.len) = gaps at *
  split
  · cases hfind : gaps.find? fun gap => decide (n ≤ gap.2 - gap.1) with
    | none =>
        right
        rw [List.find?_eq_none] at hfind
        refine ⟨rfl, hshort fun gap hgap => ?_⟩
        exact not_le.mp fun hle => hfind gap hgap (decide_eq_true hle)
    | some gap =>
        left
        have hroom : n ≤ gap.2 - gap.1 := by simpa using List.find?_some hfind
        have hmem := List.mem_of_find?_eq_some hfind
        obtain ⟨hin, hfree⟩ := h.free_of_gap (n := n) (hgaps ▸ hmem) (le_refl _) (by omega)
        exact ⟨gap.1, s, rfl, h, rfl, hin, hfree⟩
  · have hsum : (gaps.map (AddrSpace.positions n)).sum ≤ r.len := by
      rw [← hgaps, getGaps]
      split
      · simp
      · refine (sum_positions_le _ hn ?_).trans (by omega)
        exact (overlapBegin_stop h.wellFormed).1.nonempty
    have hlt : r.len < 2 ^ 64 := by
      have := hf.2
      omega
    rw [Nat.mod_eq_of_lt (hsum.trans_lt hlt)]
    split
    · rename_i hzero
      right
      refine ⟨rfl, hshort fun gap hgap => ?_⟩
      have hpos : AddrSpace.positions n gap = 0 := by
        refine Nat.le_zero.mp (le_trans ?_ hzero.le)
        exact List.single_le_sum (fun _ _ => Nat.zero_le _) _ (List.mem_map_of_mem hgap)
      rw [AddrSpace.positions] at hpos
      split at hpos <;> omega
    · rename_i hpos
      left
      obtain ⟨start, hpick, gap, hgap, hlo, hhi⟩ := pick_spec hn gaps
        (s.randBelow (gaps.map (AddrSpace.positions n)).sum).1
        (Nat.mod_lt _ (Nat.pos_of_ne_zero hpos))
      obtain ⟨hin, hfree⟩ := h.free_of_gap (hgaps ▸ hgap) hlo hhi
      refine ⟨start, _, ?_, h.of_randState (s.randState + 0x9E3779B97F4A7C15),
        s.table_randState _, hin, hfree⟩
      rw [hpick, randBelow_snd]

/-! The calls. -/

/-- What `map_any` does once it has chosen a place. -/
theorem place_spec (hf : r.Fits) (hlen : 0 < len) (hin : r.Contains start (r.pages len))
    (hfree : s.table.Free start (r.pages len)) (hint : Nat) (info : MapInfo) :
    let t := (s.record start (r.pages len) info).checkInRegion (s.toAddr start) len
    Implements r t ∧
      TableStep r s.table (.mapAny hint len info, .addr (some (s.toAddr start))) t.table ∧
      t.Recorded r (s.toAddr start) len info := by
  obtain ⟨himpl, htable⟩ := h.record_spec hf hin info
  have hlt := hin.lt (r.pages_pos hlen)
  have hpage : s.toAddr start / r.pagesize = start := by
    rw [h.toAddr_eq hf hlt, Nat.mul_div_cancel _ r.pagesize_pos]
  have hin' : r.Contains (s.toAddr start / r.pagesize) (r.pages len) := hpage.symm ▸ hin
  have hcheck := himpl.checkInRegion_eq hin'
  simp only [hcheck]
  refine ⟨himpl, ⟨hlen, start, h.toAddr_eq hf hlt, hin, hfree, htable⟩, s.regions,
    h.wellFormed, ?_⟩
  rw [hpage, AddrSpace.record, hf.add64_eq hin]

theorem mapAny_spec (hf : r.Fits) (hint len : Nat) (info : MapInfo) :
    Implements r (s.mapAny hint len info).2 ∧
      TableStep r s.table (.mapAny hint len info, .addr (s.mapAny hint len info).1)
        (s.mapAny hint len info).2.table ∧
      ∀ a, (s.mapAny hint len info).1 = some a →
        (s.mapAny hint len info).2.Recorded r a len info := by
  rw [AddrSpace.mapAny]
  by_cases hlen : len = 0
  · rw [if_pos hlen]
    exact ⟨h, ⟨.inl hlen, rfl⟩, nofun⟩
  have hlen' : 0 < len := Nat.pos_of_ne_zero hlen
  have hpages := r.pages_pos hlen'
  simp only [if_neg hlen, h.toPageCeil_eq, if_neg hpages.ne']
  split
  · rename_i hhint
    obtain ⟨-, -, hvalid, hover⟩ := hhint
    have hin := h.isValid_iff.mp hvalid
    have hplace := h.place_spec hf hlen' hin ?_ hint info
    · exact ⟨hplace.1, hplace.2.1, fun a ha => Option.some.inj ha ▸ hplace.2.2⟩
    have hlt : s.toPage hint < s.toPage hint + r.pages len := Nat.lt_add_of_pos_right hpages
    rw [hf.add64_eq hin, Bool.not_eq_true', ← Bool.not_eq_true, overlaps_iff h.wellFormed hlt]
      at hover
    refine (free_iff h.wellFormed hlt).mpr fun e he => ?_
    by_contra hmeet
    obtain ⟨hse, hes⟩ := not_or.mp hmeet
    exact hover ⟨e, he, not_le.mp hse, not_le.mp hes⟩
  · rcases h.findFree_spec hf hpages with ⟨start, s', hfind, himpl, htable, hin, hfree⟩ | ⟨hfind, hno⟩
    · rw [hfind]
      rw [← htable] at hfree ⊢
      have hplace := himpl.place_spec hf hlen' hin hfree hint info
      exact ⟨hplace.1, hplace.2.1, fun a ha => Option.some.inj ha ▸ hplace.2.2⟩
    · rw [hfind]
      exact ⟨h, ⟨.inr hno, rfl⟩, nofun⟩

/-- The tests at the start of `map_at`, `unmap` and `protect`. -/
theorem accepts_iff (addr len : Nat) :
    r.Accepts addr len ↔ ¬(addr % 2 ^ s.p2pagesize ≠ 0 ∨ len = 0) ∧ r.pages len ≠ 0 ∧
      s.isValid (addr / r.pagesize) (r.pages len) = true := by
  rw [Region.Accepts, h.isValid_iff, Nat.dvd_iff_mod_eq_zero, h.p2, ← Region.pagesize]
  constructor
  · rintro ⟨hal, hlen, hin⟩
    exact ⟨by omega, (r.pages_pos hlen).ne', hin⟩
  · rintro ⟨hargs, -, hin⟩
    exact ⟨by omega, by omega, hin⟩

theorem unmap_spec (hf : r.Fits) (addr len : Nat) :
    Implements r (s.unmap addr len).2.1 ∧
      TableStep r s.table (.unmap addr len, .error (s.unmap addr len).1)
        (s.unmap addr len).2.1.table := by
  have hacc := h.accepts_iff addr len
  rw [AddrSpace.unmap]
  simp only [h.toPage_eq, h.toPageCeil_eq]
  split
  · rename_i hargs
    exact ⟨h, fun hok => (hacc.mp hok).1 hargs, rfl⟩
  split
  · rename_i hpages
    exact ⟨h, fun hok => (hacc.mp hok).2.1 hpages, rfl⟩
  split
  · rename_i hvalid
    exact ⟨h, fun hok => by simp [(hacc.mp hok).2.2] at hvalid, rfl⟩
  · rename_i hargs hpages hvalid
    have hok : r.Accepts addr len := hacc.mpr ⟨hargs, hpages, by simpa using hvalid⟩
    rw [hf.add64_eq hok.2.2]
    have htable : ∀ k, toFun (remove s.regions (addr / r.pagesize)
        (addr / r.pagesize + r.pages len)) k =
          s.table.set (addr / r.pagesize) (r.pages len) none k :=
      fun k => toFun_remove h.wellFormed _ _ _
    refine ⟨h.of_regions (wellFormed_remove h.wellFormed _ _) fun k hk => .inl ?_, hok,
      funext htable⟩
    rw [htable, Table.set] at hk
    split at hk
    · exact absurd rfl hk
    · exact hk

theorem mapAt_spec (hf : r.Fits) (addr len : Nat) (info : MapInfo) :
    Implements r (s.mapAt addr len info).2.1 ∧
      TableStep r s.table (.mapAt addr len info, .addr (s.mapAt addr len info).1)
        (s.mapAt addr len info).2.1.table ∧
      ∀ a, (s.mapAt addr len info).1 = some a →
        (s.mapAt addr len info).2.1.Recorded r a len info := by
  have hacc := h.accepts_iff addr len
  obtain ⟨himpl, hunmap⟩ := h.unmap_spec hf addr len
  rw [AddrSpace.mapAt]
  simp only [h.toPage_eq, h.toPageCeil_eq]
  split
  · rename_i hargs
    exact ⟨h, ⟨fun hok => (hacc.mp hok).1 hargs, rfl⟩, nofun⟩
  split
  · rename_i hpages
    exact ⟨h, ⟨fun hok => (hacc.mp hok).2.1 hpages, rfl⟩, nofun⟩
  split
  · rename_i hvalid
    exact ⟨h, ⟨fun hok => by simp [(hacc.mp hok).2.2] at hvalid, rfl⟩, nofun⟩
  · rename_i hargs hpages hvalid
    have hok : r.Accepts addr len := hacc.mpr ⟨hargs, hpages, by simpa using hvalid⟩
    have hset : (s.unmap addr len).2.1.table =
        s.table.set (addr / r.pagesize) (r.pages len) none := by
      cases hres : (s.unmap addr len).1 <;> rw [hres] at hunmap
      · exact hunmap.2
      · exact absurd hok hunmap.1
      · exact hunmap.elim
    obtain ⟨himpl', htable⟩ := himpl.record_spec hf hok.2.2 info
    rw [himpl'.checkInRegion_eq hok.2.2]
    refine ⟨himpl', ⟨hok, rfl, ?_⟩, fun a ha => ?_⟩
    · rw [htable, hset, Table.set_set]
    · obtain rfl := Option.some.inj ha
      refine ⟨_, himpl.wellFormed, ?_⟩
      rw [AddrSpace.record, hf.add64_eq hok.2.2]

end Implements

/-! The loop of `protect`, over a snapshot of the entries that meet the range. -/

section

variable {regions es : List (Entry Nat MapInfo)} {start stop : Nat} {prot : BitVec 32}

theorem protectEntry_spec (start stop : Nat) (prot : BitVec 32) (hwf : WellFormed regions)
    (e : Entry Nat MapInfo) (k : Nat) :
    WellFormed (AddrSpace.protectEntry start stop prot regions e) ∧
      toFun (AddrSpace.protectEntry start stop prot regions e) k =
        if e.Covers k ∧ start ≤ k ∧ k < stop then some { e.val with prot := prot }
        else toFun regions k := by
  have hwf' : WellFormed (remove regions (max e.start start) (min e.stop stop)) :=
    wellFormed_remove hwf _ _
  refine ⟨wellFormed_insert hwf' _ _ _, ?_⟩
  rw [AddrSpace.protectEntry, toFun_insert hwf', toFun_remove hwf]
  have hiff : (max e.start start ≤ k ∧ k < min e.stop stop) ↔
      e.Covers k ∧ start ≤ k ∧ k < stop := by
    rw [Entry.Covers]
    omega
  simp only [hiff]
  split <;> rfl

/-- An entry of the snapshot gives its part of the range the new protection;
the rest of the map stays. -/
theorem foldl_protectEntry (start stop : Nat) (prot : BitVec 32) (hwf : WellFormed regions)
    (hes : WellFormed es) (k : Nat) :
    WellFormed (es.foldl (AddrSpace.protectEntry start stop prot) regions) ∧
      (∀ e ∈ es, e.Covers k → start ≤ k → k < stop →
        toFun (es.foldl (AddrSpace.protectEntry start stop prot) regions) k =
          some { e.val with prot := prot }) ∧
      ((∀ e ∈ es, ¬(e.Covers k ∧ start ≤ k ∧ k < stop)) →
        toFun (es.foldl (AddrSpace.protectEntry start stop prot) regions) k =
          toFun regions k) := by
  induction es generalizing regions with
  | nil => exact ⟨hwf, by simp, fun _ => rfl⟩
  | cons e es ih =>
      obtain ⟨hwf', hentry⟩ := protectEntry_spec start stop prot hwf e k
      obtain ⟨hfold, hin, hout⟩ := ih hwf' (WellFormed.cons_iff.mp hes).2.2
      have hdisjoint : e.Covers k → ∀ f ∈ es, ¬f.Covers k := by
        intro hek f hf hfk
        have hle := (WellFormed.cons_iff.mp hes).2.1 f hf
        exact absurd (hek.2.trans_le (hle.trans hfk.1)) (lt_irrefl k)
      refine ⟨hfold, ?_, ?_⟩
      · intro f hf hfk hsk hks
        rcases List.mem_cons.mp hf with rfl | hf
        · rw [List.foldl_cons, hout fun g hg hgk => hdisjoint hfk g hg hgk.1, hentry,
            if_pos ⟨hfk, hsk, hks⟩]
        · exact hin f hf hfk hsk hks
      · intro hnone
        rw [List.foldl_cons, hout fun f hf => hnone f (List.mem_cons_of_mem _ hf), hentry,
          if_neg (hnone e List.mem_cons_self)]

/-- The loop changes the protection of the mapped part of the range. -/
theorem protect_regions (prot : BitVec 32) (hwf : WellFormed regions) (hlt : start < stop) (k : Nat) :
    let regions' := (getOverlapping regions start stop).foldl
      (AddrSpace.protectEntry start stop prot) regions
    WellFormed regions' ∧ toFun regions' k =
      if start ≤ k ∧ k < stop then (toFun regions k).map fun info => { info with prot := prot }
      else toFun regions k := by
  obtain ⟨hfold, hin, hout⟩ := foldl_protectEntry start stop prot hwf
    (wellFormed_getOverlapping start stop hwf) k
  refine ⟨hfold, ?_⟩
  by_cases hk : start ≤ k ∧ k < stop
  · rw [if_pos hk]
    cases hfun : toFun regions k with
    | none =>
        rw [Option.map_none, hout, hfun]
        rintro e he ⟨hek, -, -⟩
        have hmem := ((mem_getOverlapping_iff hwf hlt).mp he).1
        exact (toFun_eq_none_iff hwf).mp hfun e hmem hek
    | some v =>
        obtain ⟨e, he, hek, rfl⟩ := (toFun_eq_some_iff hwf).mp hfun
        have hover : e ∈ getOverlapping regions start stop :=
          (mem_getOverlapping_iff hwf hlt).mpr
            ⟨he, hk.1.trans_lt hek.2, hek.1.trans_lt hk.2⟩
        rw [hin e hover hek hk.1 hk.2]
        rfl
  · rw [if_neg hk, hout fun e _ hek => hk hek.2]

end

namespace Implements

variable {r : Region} {s : AddrSpace} (h : Implements r s)

include h

theorem protect_spec (hf : r.Fits) (addr len : Nat) (prot : BitVec 32) :
    Implements r (s.protect addr len prot).2.1 ∧
      TableStep r s.table (.protect addr len prot, .error (s.protect addr len prot).1)
        (s.protect addr len prot).2.1.table := by
  have hacc := h.accepts_iff addr len
  rw [AddrSpace.protect]
  simp only [h.toPage_eq, h.toPageCeil_eq]
  split
  · rename_i hargs
    exact ⟨h, fun hok => (hacc.mp hok).1 hargs, rfl⟩
  split
  · rename_i hpages
    exact ⟨h, fun hok => (hacc.mp hok).2.1 hpages, rfl⟩
  split
  · rename_i hvalid
    exact ⟨h, fun hok => by simp [(hacc.mp hok).2.2] at hvalid, rfl⟩
  · rename_i hargs hpages hvalid
    have hok : r.Accepts addr len := hacc.mpr ⟨hargs, hpages, by simpa using hvalid⟩
    rw [hf.add64_eq hok.2.2]
    have hlt : addr / r.pagesize < addr / r.pagesize + r.pages len :=
      Nat.lt_add_of_pos_right (r.pages_pos hok.2.1)
    have hregions := protect_regions prot h.wellFormed hlt
    refine ⟨h.of_regions (hregions 0).1 fun k hk => .inl ?_, hok, ?_⟩
    · rw [(hregions k).2] at hk
      intro hnone
      rw [show toFun s.regions k = none from hnone] at hk
      simp at hk
    · funext k
      exact (hregions k).2

end Implements

/-! What a call can do to the mapper and its table. -/

namespace Implements

variable {r : Region} {s : AddrSpace} (h : Implements r s)

include h

theorem mapAny_cases (hf : r.Fits) (hint len : Nat) (info : MapInfo) :
    (∃ start s', s.mapAny hint len info = (some (start * r.pagesize), s') ∧ 0 < len ∧
        r.Contains start (r.pages len) ∧ s.table.Free start (r.pages len) ∧ Implements r s' ∧
        s'.table = s.table.set start (r.pages len) (some info) ∧
        s'.Recorded r (start * r.pagesize) len info) ∨
      ∃ s', s.mapAny hint len info = (none, s') ∧ Implements r s' ∧ s'.table = s.table := by
  obtain ⟨himpl, hstep, hrec⟩ := h.mapAny_spec hf hint len info
  cases hres : s.mapAny hint len info with
  | mk a s' =>
      rw [hres] at himpl hstep hrec
      cases a with
      | none => exact .inr ⟨s', rfl, himpl, hstep.2⟩
      | some a =>
          obtain ⟨hlen, start, rfl, hin, hfree, htable⟩ := hstep
          exact .inl ⟨start, s', rfl, hlen, hin, hfree, himpl, htable, hrec _ rfl⟩

theorem mapAt_cases (hf : r.Fits) (addr len : Nat) (info : MapInfo) :
    (∃ s', s.mapAt addr len info = (some addr, s', (s.unmap addr len).2.2) ∧
        r.Accepts addr len ∧ Implements r s' ∧
        s'.table = s.table.set (addr / r.pagesize) (r.pages len) (some info) ∧
        s'.Recorded r addr len info) ∨
      s.mapAt addr len info = (none, s, []) ∧ ¬r.Accepts addr len := by
  obtain ⟨himpl, hstep, hrec⟩ := h.mapAt_spec hf addr len info
  rw [AddrSpace.mapAt] at himpl hstep hrec ⊢
  simp only at himpl hstep hrec ⊢
  split_ifs at himpl hstep hrec ⊢
  · exact .inr ⟨rfl, hstep.1⟩
  · exact .inr ⟨rfl, hstep.1⟩
  · exact .inr ⟨rfl, hstep.1⟩
  · obtain ⟨hok, -, htable⟩ := hstep
    exact .inl ⟨_, rfl, hok, himpl, htable, hrec _ rfl⟩

theorem unmap_ok (hf : r.Fits) {addr len : Nat} (hok : r.Accepts addr len) :
    ∃ s' pieces, s.unmap addr len = (.kOk, s', pieces) ∧ Implements r s' ∧
      s'.table = s.table.set (addr / r.pagesize) (r.pages len) none := by
  obtain ⟨himpl, hstep⟩ := h.unmap_spec hf addr len
  cases hres : s.unmap addr len with
  | mk err out =>
      rw [hres] at himpl hstep
      cases err with
      | kOk => exact ⟨out.1, out.2, rfl, himpl, hstep.2⟩
      | kInval => exact absurd hok hstep.1
      | kNoMem => exact hstep.elim

theorem protect_ok (hf : r.Fits) {addr len : Nat} (prot : BitVec 32) (hok : r.Accepts addr len) :
    ∃ s' pieces, s.protect addr len prot = (.kOk, s', pieces) ∧ Implements r s' ∧
      s'.table = s.table.protect (addr / r.pagesize) (r.pages len) prot := by
  obtain ⟨himpl, hstep⟩ := h.protect_spec hf addr len prot
  cases hres : s.protect addr len prot with
  | mk err out =>
      rw [hres] at himpl hstep
      cases err with
      | kOk => exact ⟨out.1, out.2, rfl, himpl, hstep.2⟩
      | kInval => exact absurd hok hstep.1
      | kNoMem => exact hstep.elim

end Implements

/-! Runs. -/

/-- A call on the mapper of `mmap.cpp`. -/
def AddrSpace.call (s : AddrSpace) : Call → Result × AddrSpace
  | .mapAny hint len info =>
      let r := s.mapAny hint len info
      (.addr r.1, r.2)
  | .mapAt addr len info =>
      let r := s.mapAt addr len info
      (.addr r.1, r.2.1)
  | .unmap addr len =>
      let r := s.unmap addr len
      (.error r.1, r.2.1)
  | .protect addr len prot =>
      let r := s.protect addr len prot
      (.error r.1, r.2.1)
  | .queryPage addr => (.info (s.queryPage addr), s)
  | .enableAslr seed => (.unit, s.enableAslr seed)

def CallStep (s : AddrSpace) (l : Call × Result) (t : AddrSpace) : Prop := s.call l.1 = (l.2, t)

instance (s : AddrSpace) (l : Call × Result) (t : AddrSpace) : Decidable (CallStep s l t) :=
  inferInstanceAs (Decidable (_ = _))

/-- One call on the mapper is one step of the table. -/
theorem Implements.call_spec {r : Region} {s t : AddrSpace} {l : Call × Result}
    (hf : r.Fits) (h : Implements r s) (hcall : CallStep s l t) :
    Implements r t ∧ TableStep r s.table l t.table := by
  obtain ⟨c, res⟩ := l
  have heq : s.call c = (res, t) := hcall
  obtain ⟨rfl, rfl⟩ : res = (s.call c).1 ∧ t = (s.call c).2 := by
    rw [heq]
    exact ⟨rfl, rfl⟩
  cases c with
  | mapAny hint len info =>
      obtain ⟨himpl, hstep, -⟩ := h.mapAny_spec hf hint len info
      exact ⟨himpl, hstep⟩
  | mapAt addr len info =>
      obtain ⟨himpl, hstep, -⟩ := h.mapAt_spec hf addr len info
      exact ⟨himpl, hstep⟩
  | unmap addr len => exact h.unmap_spec hf addr len
  | protect addr len prot => exact h.protect_spec hf addr len prot
  | queryPage addr =>
      refine ⟨h, ?_, rfl⟩
      rw [AddrSpace.queryPage, h.toPage_eq]
      rfl
  | enableAslr seed => exact ⟨⟨h.base, h.len, h.p2, h.wellFormed, h.inside, h.running⟩, rfl⟩

/-- The region of pages of `pagesize` bytes from byte `start` on. -/
def regionOf (start len pagesize : Nat) : Region :=
  ⟨start / pagesize, len / pagesize, Nat.log2 pagesize⟩

theorem pagesize_regionOf {start len pagesize : Nat} {s : AddrSpace}
    (hinit : AddrSpace.init start len pagesize = some s) :
    (regionOf start len pagesize).pagesize = pagesize := by
  rw [AddrSpace.init] at hinit
  split at hinit
  · cases hinit
  · rename_i hargs
    obtain ⟨hne, hpow⟩ := not_or.mp hargs
    obtain ⟨i, hi⟩ := (Nat.and_sub_one_eq_zero_iff_isPowerOfTwo hne).mp (not_not.mp hpow)
    rw [Region.pagesize, regionOf, hi, Nat.log2_two_pow]

theorem implements_init {start len pagesize : Nat} {s : AddrSpace}
    (hinit : AddrSpace.init start len pagesize = some s) (hlen : pagesize ∣ len) :
    Implements (regionOf start len pagesize) s ∧ s.table = Table.empty := by
  have hps := pagesize_regionOf hinit
  rw [AddrSpace.init] at hinit
  split at hinit
  · cases hinit
  · obtain rfl := Option.some.inj hinit
    have hpow : 2 ^ Nat.log2 pagesize = pagesize := hps
    refine ⟨⟨?_, ?_, rfl, .nil, fun k hk => absurd rfl hk, rfl⟩, rfl⟩
    · simp [AddrSpace.toPage, Nat.shiftRight_eq_div_pow, hpow, regionOf]
    · simp [AddrSpace.toPageCeil, Nat.shiftRight_eq_div_pow, hpow, regionOf,
        Nat.mod_eq_zero_of_dvd hlen]

/-- A region of whole pages whose addresses, and the page number after it, are
64-bit numbers. -/
def RegionFits (start len pagesize : Nat) : Prop :=
  start + len ≤ 2 ^ 64 ∧ (start + len) / pagesize < 2 ^ 64

theorem fits_regionOf {start len pagesize : Nat} {s : AddrSpace}
    (hinit : AddrSpace.init start len pagesize = some s) (hstart : pagesize ∣ start)
    (hfits : RegionFits start len pagesize) : (regionOf start len pagesize).Fits := by
  have hsum : start / pagesize + len / pagesize = (start + len) / pagesize :=
    (Nat.add_div_of_dvd_right hstart).symm
  rw [Region.Fits, pagesize_regionOf hinit]
  simp only [regionOf, hsum]
  exact ⟨(Nat.div_mul_le_self _ _).trans hfits.1, hfits.2⟩

/-- Where the region does not wrap, the mapper runs as a table of its pages
does, all of them in the region, and never terminates the process. -/
theorem addrSpace_implements_table {start len pagesize : Nat} {s t : AddrSpace}
    {ls : List (Call × Result)} (hinit : AddrSpace.init start len pagesize = some s)
    (hstart : pagesize ∣ start) (hlen : pagesize ∣ len)
    (hfits : RegionFits start len pagesize) (hrun : Trace CallStep s ls t) :
    Trace (TableStep (regionOf start len pagesize)) Table.empty ls t.table ∧
      (∀ page, t.table page ≠ none →
        start / pagesize ≤ page ∧ page < start / pagesize + len / pagesize) ∧
      t.terminated = false := by
  obtain ⟨himpl, hempty⟩ := implements_init hinit hlen
  have hf := fits_regionOf hinit hstart hfits
  obtain ⟨hinv, htrace⟩ := hrun.simulate AddrSpace.table
    (fun _ _ _ hs hstep => Implements.call_spec hf hs hstep) himpl
  exact ⟨hempty ▸ htrace, hinv.inside, hinv.running⟩

def anonInfo : MapInfo := ⟨3, 34, -1, 0⟩

/-- A mapper of `len` bytes from `start` on, in pages of 4 KiB. -/
def mapper (start len : Nat) (regions : List (Entry Nat MapInfo)) (terminated : Bool) : AddrSpace :=
  ⟨start / 4096, len / 4096, 12, false, 0, regions, terminated⟩

/-- Two pages mapped, one of them made read-only. -/
theorem addrSpace_implements_table_at_two_pages :
    let t := mapper 0x1000 0x3000
      [⟨1, 2, anonInfo⟩, ⟨2, 3, { anonInfo with prot := 1 }⟩] false
    Trace (TableStep (regionOf 0x1000 0x3000 4096)) Table.empty
        [(.mapAny 0 0x1001 anonInfo, .addr (some 0x1000)), (.protect 0x2000 1 1, .error .kOk)]
        t.table ∧
      (∀ page, t.table page ≠ none →
        0x1000 / 4096 ≤ page ∧ page < 0x1000 / 4096 + 0x3000 / 4096) ∧
      t.terminated = false := by
  have hmap : CallStep (mapper 0x1000 0x3000 [] false)
      (.mapAny 0 0x1001 anonInfo, .addr (some 0x1000))
      (mapper 0x1000 0x3000 [⟨1, 3, anonInfo⟩] false) := by decide
  have hprotect : CallStep (mapper 0x1000 0x3000 [⟨1, 3, anonInfo⟩] false)
      (.protect 0x2000 1 1, .error .kOk)
      (mapper 0x1000 0x3000 [⟨1, 2, anonInfo⟩, ⟨2, 3, { anonInfo with prot := 1 }⟩] false) := by
    decide
  have hinit : AddrSpace.init 0x1000 0x3000 4096 = some (mapper 0x1000 0x3000 [] false) := by
    decide
  exact addrSpace_implements_table hinit (by decide) (by decide) ⟨by decide, by decide⟩
    (.cons hmap (.cons hprotect (.nil _)))

/-- Two pages across the end of the address space: the second one is given out
at address 0, and the process is terminated. -/
theorem wrapped_region_terminates :
    ∃ s t ls, AddrSpace.init 0xfffffffffffff000 0x2000 4096 = some s ∧
      4096 ∣ 0xfffffffffffff000 ∧ 4096 ∣ 0x2000 ∧ Trace CallStep s ls t ∧
      t.terminated = true := by
  have hfirst : CallStep (mapper 0xfffffffffffff000 0x2000 [] false)
      (.mapAny 0 4096 anonInfo, .addr (some 0xfffffffffffff000))
      (mapper 0xfffffffffffff000 0x2000 [⟨0xfffffffffffff, 0x10000000000000, anonInfo⟩] false) := by
    decide
  have hsecond : CallStep
      (mapper 0xfffffffffffff000 0x2000 [⟨0xfffffffffffff, 0x10000000000000, anonInfo⟩] false)
      (.mapAny 0 4096 anonInfo, .addr (some 0))
      (mapper 0xfffffffffffff000 0x2000 [⟨0xfffffffffffff, 0x10000000000001, anonInfo⟩] true) := by
    decide
  exact ⟨_, _, _, by decide, by decide, by decide, .cons hfirst (.cons hsecond (.nil _)), rfl⟩

end LfiRuntime.Mmap
