import LfiRuntime.Boxmap.Boxmap
import LfiRuntime.Lib.Runs

/-!
The spaces that a `BoxMap` has handed out and not taken back, and what its
regions know of them.
-/

namespace LfiRuntime.Boxmap

open LfiRuntime.FirstFit
open LfiRuntime.Runs

/-- The addresses `[base, base + size)`. -/
structure Space where
  base : Nat
  size : Nat
deriving DecidableEq, Repr

namespace Space

def Disjoint (l m : Space) : Prop := l.base + l.size ≤ m.base ∨ m.base + m.size ≤ l.base

/-- The chunk at address `a` belongs to the space. -/
def HasChunk (c : Nat) (l : Space) (a : Nat) : Prop := l.base ≤ a ∧ a + c ≤ l.base + l.size

instance : Std.Symm Space.Disjoint := ⟨fun _ _ h => Or.symm h⟩

/-- Two disjoint spaces have no chunk in common. -/
theorem Disjoint.not_hasChunk {l m : Space} {c a : Nat} (h : l.Disjoint m) (hc : 0 < c)
    (hl : l.HasChunk c a) : ¬m.HasChunk c a := by
  rcases h with h | h <;>
  · rintro ⟨hlo, hhi⟩
    have := hl.1
    have := hl.2
    omega

end Space

namespace AddrRegion

def space (r : AddrRegion) : Space := ⟨r.base, r.size⟩

/-- The region that `deleteslot` looks for. -/
def Holds (r : AddrRegion) (l : Space) : Prop := r.base ≤ l.base ∧ l.base < r.base + r.size

instance (r : AddrRegion) (l : Space) : Decidable (r.Holds l) :=
  inferInstanceAs (Decidable (_ ∧ _))

/-- Chunk `i` of the region belongs to one of the spaces. -/
def Used (c : Nat) (live : List Space) (r : AddrRegion) (i : Nat) : Prop :=
  ∃ l ∈ live, l.HasChunk c (r.base + i * c)

/-- A region of whole chunks, as `addregion` makes it. Its first address is not
0, which means failure, and the address after its last one exists. -/
structure Shaped (c : Nat) (r : AddrRegion) : Prop where
  chunksize : r.alloc.chunksize = c
  base_eq : r.base = r.alloc.base * c
  size_eq : r.size = r.alloc.size * c
  length_bitvec : r.alloc.bitvec.length = r.alloc.size / 8 + 1
  ne_zero : 0 < r.base
  lt : r.base + r.size < 2 ^ 64

/-- The bits and the counter of the region record the live spaces. -/
structure Tracks (c : Nat) (live : List Space) (r : AddrRegion) : Prop where
  shaped : r.Shaped c
  bits : ∀ i, i < r.alloc.size → (Set1 r.alloc.bitvec i ↔ r.Used c live i)
  active : r.active = live.countP fun l => decide (r.Holds l)

end AddrRegion

namespace AddrRegion.Shaped

variable {c : Nat} {r : AddrRegion} (h : r.Shaped c) {n i : Nat}

include h

theorem chunksize_pos : 0 < c := by
  refine Nat.pos_of_ne_zero fun hc => ?_
  have hne := h.ne_zero
  rw [h.base_eq, hc] at hne
  exact absurd hne (by omega)

theorem end_eq : r.base + r.size = (r.alloc.base + r.alloc.size) * c := by
  rw [h.base_eq, h.size_eq, Nat.add_mul]

theorem chunk_le (hi : i + n ≤ r.alloc.size) :
    r.base + i * c + n * c ≤ r.base + r.size := by
  have hmul := Nat.mul_le_mul_right c hi
  rw [Nat.add_mul] at hmul
  rw [h.size_eq]
  omega

theorem chunk_le_base : c ≤ r.base := by
  have hne := h.ne_zero
  rw [h.base_eq] at hne ⊢
  exact Nat.le_mul_of_pos_left c (Nat.pos_of_mul_pos_right hne)

/-- `extalloc_alloc` takes the lowest run, and changes nothing when there is
none. -/
theorem extallocAlloc_spec (hn : n * c < 2 ^ 64) (hpos : 0 < n) :
    (∃ i, IsFirstRun (Set1 r.alloc.bitvec) r.alloc.size n i ∧
        extallocAlloc r.alloc (n * c) = (r.base + i * c,
          { r.alloc with bitvec := bitvecSet r.alloc.bitvec i n true })) ∨
      (∀ i, ¬IsRun (Set1 r.alloc.bitvec) r.alloc.size n i) ∧
        extallocAlloc r.alloc (n * c) = (0, r.alloc) := by
  have hc := h.chunksize_pos
  have hle := h.chunk_le_base
  have hlt := h.lt
  rw [extallocAlloc, h.chunksize]
  by_cases hfits : n * c + c ≤ 2 ^ 64
  · rw [chunksCeil_mul hc hfits]
    rcases bitvecFindZeroes_spec (v := r.alloc.bitvec) hpos r.alloc.size with
      ⟨i, hfind, hrun⟩ | ⟨hfind, hnone⟩
    · refine .inl ⟨i, hrun, ?_⟩
      have hroom := h.chunk_le hrun.1.1
      simp only [hfind]
      rw [Nat.add_mul, ← h.base_eq, Nat.mod_eq_of_lt (by omega), h.chunksize]
    · exact .inr ⟨hnone, by simp only [hfind]⟩
  · rw [chunksCeil_mul_of_wrap hn (by omega) (by omega)]
    refine .inr ⟨fun i hrun => ?_, rfl⟩
    have hroom := h.chunk_le hrun.1
    omega

theorem set1_bitvecSet (hroom : i + n ≤ r.alloc.size) (val : Bool) (j : Nat) :
    Set1 (bitvecSet r.alloc.bitvec i n val) j ↔
      if i ≤ j ∧ j < i + n then val = true else Set1 r.alloc.bitvec j := by
  have hlen := h.length_bitvec
  rw [Set1, bit_bitvecSet (by omega)]
  split
  · cases val <;> simp
  · rfl

theorem hasChunk_iff (i n j : Nat) :
    (Space.mk (r.base + i * c) (n * c)).HasChunk c (r.base + j * c) ↔ i ≤ j ∧ j < i + n := by
  have hc := h.chunksize_pos
  have hend : r.base + j * c + c ≤ r.base + i * c + n * c ↔ (j + 1) * c ≤ (i + n) * c := by
    rw [Nat.add_mul, Nat.add_mul]
    omega
  rw [Space.HasChunk, hend, Nat.add_le_add_iff_left, Nat.mul_le_mul_right_iff hc,
    Nat.mul_le_mul_right_iff hc]
  omega

/-- A chunk of the region, as an address. -/
theorem hasChunk_space (hi : i < r.alloc.size) : r.space.HasChunk c (r.base + i * c) := by
  have hroom := h.chunk_le (n := 1) hi
  rw [one_mul] at hroom
  exact ⟨Nat.le_add_right _ _, hroom⟩

/-- An aligned space of the region, in chunks. -/
theorem exists_chunks {l : Space} (hbase : c ∣ l.base) (hsize : c ∣ l.size)
    (hlo : r.base ≤ l.base) (hhi : l.base + l.size ≤ r.base + r.size) :
    ∃ i n, l = ⟨r.base + i * c, n * c⟩ ∧ i + n ≤ r.alloc.size := by
  have hc := h.chunksize_pos
  obtain ⟨x, hx⟩ := hbase
  obtain ⟨n, hn⟩ := hsize
  have hcomm : l.base = x * c := hx.trans (Nat.mul_comm _ _)
  have hcomm' : l.size = n * c := hn.trans (Nat.mul_comm _ _)
  have hle : r.alloc.base ≤ x := by
    rw [h.base_eq, hcomm] at hlo
    exact Nat.le_of_mul_le_mul_right hlo hc
  refine ⟨x - r.alloc.base, n, ?_, ?_⟩
  · have hbase : l.base = r.base + (x - r.alloc.base) * c := by
      rw [h.base_eq, ← Nat.add_mul, Nat.add_sub_cancel' hle, hcomm]
    cases l
    simp only at hbase hcomm'
    rw [hbase, hcomm']
  · rw [hcomm, hcomm', ← Nat.add_mul, h.end_eq] at hhi
    have := Nat.le_of_mul_le_mul_right hhi hc
    omega

theorem with_bitvec {v : Bitvec} {active : Nat} (hv : v.length = r.alloc.bitvec.length) :
    AddrRegion.Shaped c { r with active := active, alloc := { r.alloc with bitvec := v } } :=
  ⟨h.chunksize, h.base_eq, h.size_eq, hv.trans h.length_bitvec, h.ne_zero, h.lt⟩

/-- `deleteslot` on the region that has the chunks. -/
theorem deleteIn_chunks (hpos : 0 < n) (hroom : i + n ≤ r.alloc.size) :
    deleteIn (r.base + i * c) (n * c) r =
      { r with
        alloc := { r.alloc with bitvec := bitvecSet r.alloc.bitvec i n false }
        active := r.active - 1 } := by
  have hc := h.chunksize_pos
  have hlt := h.lt
  have hle := h.chunk_le hroom
  have hmul := Nat.mul_pos hpos hc
  have hfits : n * c + c ≤ 2 ^ 64 := by
    have := h.chunk_le_base
    omega
  have hdiv : (r.base + i * c) / c - r.alloc.base = i := by
    rw [h.base_eq, ← Nat.add_mul, Nat.mul_div_cancel _ hc, Nat.add_sub_cancel_left]
  have hfree : extallocFree r.alloc (r.base + i * c) (n * c) =
      { r.alloc with bitvec := bitvecSet r.alloc.bitvec i n false } := by
    rw [extallocFree, h.chunksize]
    simp only [chunksCeil_mul hc hfits, hdiv]
    rw [h.chunksize]
  rw [deleteIn, Nat.mod_eq_of_lt hlt, if_pos (by omega), hfree]

end AddrRegion.Shaped

namespace AddrRegion.Tracks

variable {c n i : Nat} {r : AddrRegion} {l : Space} {live : List Space} (h : r.Tracks c live)

include h

/-- The region that hands out a run of free chunks. -/
theorem alloc (hroom : i + n ≤ r.alloc.size) (hpos : 0 < n) :
    AddrRegion.Tracks c (⟨r.base + i * c, n * c⟩ :: live)
      { r with
        alloc := { r.alloc with bitvec := bitvecSet r.alloc.bitvec i n true }
        active := r.active + 1 } := by
  have hs := h.shaped
  refine ⟨hs.with_bitvec length_bitvecSet, fun j hj => ?_, ?_⟩
  · have hused : r.Used c (⟨r.base + i * c, n * c⟩ :: live) j ↔
        (i ≤ j ∧ j < i + n) ∨ r.Used c live j := by
      rw [AddrRegion.Used, List.exists_mem_cons_iff, hs.hasChunk_iff]
      rfl
    rw [hs.set1_bitvecSet hroom]
    refine Iff.trans ?_ hused.symm
    split
    · rename_i hin
      simp [hin]
    · rename_i hin
      rw [h.bits j hj]
      simp [hin]
  · have hle := hs.chunk_le hroom
    have hc := Nat.mul_pos hpos hs.chunksize_pos
    have hholds : r.Holds ⟨r.base + i * c, n * c⟩ := ⟨Nat.le_add_right _ _, by simp only; omega⟩
    change r.active + 1 = (_ :: live).countP fun l => decide (r.Holds l)
    rw [List.countP_cons, h.active, if_pos (decide_eq_true hholds)]

/-- A run of free chunks touches no live space of the region. -/
theorem disjoint_of_run (hrun : IsRun (Set1 r.alloc.bitvec) r.alloc.size n i) (hn : 0 < n)
    (hmem : l ∈ live) (hpos : 0 < l.size) (hbase : c ∣ l.base) (hsize : c ∣ l.size)
    (hlo : r.base ≤ l.base) (hhi : l.base + l.size ≤ r.base + r.size) :
    (Space.mk (r.base + i * c) (n * c)).Disjoint l := by
  have hs := h.shaped
  obtain ⟨j, m, rfl, hroom⟩ := hs.exists_chunks hbase hsize hlo hhi
  have hm : 0 < m := Nat.pos_of_mul_pos_right hpos
  have hends : i + n ≤ j ∨ j + m ≤ i := by
    by_contra hover
    push Not at hover
    -- the later of the two first chunks belongs to both
    have hfree := hrun.2 (max i j) (by omega) (by omega)
    refine hfree ((h.bits _ (by omega)).mpr ⟨_, hmem, ?_⟩)
    exact (hs.hasChunk_iff _ _ _).mpr (by omega)
  rw [Space.Disjoint]
  simp only [Nat.add_assoc, ← Nat.add_mul, Nat.add_le_add_iff_left]
  exact hends.imp (Nat.mul_le_mul_right _) (Nat.mul_le_mul_right _)

/-- A region that another one's space does not touch. -/
theorem cons (hl : l.Disjoint r.space) (hpos : 0 < l.size) : r.Tracks c (l :: live) := by
  have hc := h.shaped.chunksize_pos
  refine ⟨h.shaped, fun j hj => ?_, ?_⟩
  · have hnot : ¬l.HasChunk c (r.base + j * c) := fun hchunk =>
      hl.not_hasChunk hc hchunk (h.shaped.hasChunk_space hj)
    rw [h.bits j hj, AddrRegion.Used, AddrRegion.Used, List.exists_mem_cons_iff]
    simp [hnot]
  · have hnot : ¬r.Holds l := by
      rintro ⟨hlo, hhi⟩
      rcases hl with hl | hl <;> simp only [AddrRegion.space] at hl <;> omega
    rw [List.countP_cons, h.active]
    simp [hnot]

/-- The chunks in use once a space is gone. -/
theorem used_erase_iff (hmem : l ∈ live) (hdis : live.Pairwise Space.Disjoint)
    (hne : ∀ m ∈ live, 0 < m.size) (i : Nat) :
    r.Used c (live.erase l) i ↔ ¬l.HasChunk c (r.base + i * c) ∧ r.Used c live i := by
  have hc := h.shaped.chunksize_pos
  have hnodup : live.Nodup := by
    refine hdis.imp_of_mem fun {a b} ha _ hab heq => ?_
    have := hne a ha
    subst heq
    rcases hab with hab | hab <;> omega
  constructor
  · rintro ⟨m, hm, hchunk⟩
    obtain ⟨hml, hm⟩ := hnodup.mem_erase_iff.mp hm
    exact ⟨(hdis.forall hm hmem hml).not_hasChunk hc hchunk, m, hm, hchunk⟩
  · rintro ⟨hnot, m, hm, hchunk⟩
    have hml : m ≠ l := fun heq => hnot (heq ▸ hchunk)
    exact ⟨m, hnodup.mem_erase_iff.mpr ⟨hml, hm⟩, hchunk⟩

/-- The region that takes a space back. -/
theorem delete (hmem : l ∈ live) (hdis : live.Pairwise Space.Disjoint)
    (hne : ∀ m ∈ live, 0 < m.size) (hbase : c ∣ l.base) (hsize : c ∣ l.size)
    (hlo : r.base ≤ l.base) (hhi : l.base + l.size ≤ r.base + r.size) :
    (deleteIn l.base l.size r).Tracks c (live.erase l) := by
  have hs := h.shaped
  have hpos := hne l hmem
  have hholds : r.Holds l := ⟨hlo, by omega⟩
  obtain ⟨i, n, hl, hroom⟩ := hs.exists_chunks hbase hsize hlo hhi
  have hn : 0 < n := by
    rw [hl] at hpos
    exact Nat.pos_of_mul_pos_right hpos
  have hdelete : deleteIn l.base l.size r =
      { r with
        alloc := { r.alloc with bitvec := bitvecSet r.alloc.bitvec i n false }
        active := r.active - 1 } := by
    rw [hl]
    exact hs.deleteIn_chunks hn hroom
  rw [hdelete]
  refine ⟨hs.with_bitvec length_bitvecSet, fun j hj => ?_, ?_⟩
  · refine Iff.trans ?_ (h.used_erase_iff hmem hdis hne j).symm
    rw [hs.set1_bitvecSet hroom, hl, hs.hasChunk_iff]
    split
    · rename_i hin
      simp [hin]
    · rename_i hin
      rw [h.bits j hj]
      simp [hin]
  · change r.active - 1 = (live.erase l).countP fun l => decide (r.Holds l)
    rw [List.countP_erase, h.active, if_pos ⟨hmem, decide_eq_true hholds⟩]

/-- A region that the space taken back does not touch. -/
theorem erase (hl : l.Disjoint r.space) (hmem : l ∈ live)
    (hdis : live.Pairwise Space.Disjoint) (hne : ∀ m ∈ live, 0 < m.size) :
    (deleteIn l.base l.size r).Tracks c (live.erase l) := by
  have hs := h.shaped
  have hpos := hne l hmem
  have hnot : ¬r.Holds l := by
    rintro ⟨hlo, hhi⟩
    rcases hl with hl | hl <;> simp only [AddrRegion.space] at hl <;> omega
  rw [deleteIn, Nat.mod_eq_of_lt hs.lt, if_neg fun hin => hnot ⟨hin.1, hin.2⟩]
  refine ⟨hs, fun j hj => ?_, ?_⟩
  · have hchunk : ¬l.HasChunk c (r.base + j * c) := fun hchunk =>
      hl.not_hasChunk hs.chunksize_pos hchunk (hs.hasChunk_space hj)
    rw [h.used_erase_iff hmem hdis hne, h.bits j hj]
    simp [hchunk]
  · rw [List.countP_erase, h.active, if_neg (by simp [hnot]), Nat.sub_zero]

end AddrRegion.Tracks

/-! Runs of a `BoxMap`. -/

structure State where
  map : BoxMap
  live : List Space

inductive Op
  | addspace (size : Nat)
  | rmspace (base size : Nat)

/-- A size that `boxmap_addspace` is meant for. -/
def ValidSize (c size : Nat) : Prop := 0 < size ∧ c ∣ size ∧ size < 2 ^ 64

def apply (s : State) : Op → State
  | .addspace size =>
      let r := boxmapAddspace s.map size
      ⟨r.2, if r.1 = 0 then s.live else ⟨r.1, size⟩ :: s.live⟩
  | .rmspace base size => ⟨boxmapRmspace s.map base size, s.live.erase ⟨base, size⟩⟩

/-- Sizes are multiples of the chunk size, and only a live space is removed. -/
def Step (c : Nat) (s : State) (op : Op) (t : State) : Prop :=
  (match op with
    | .addspace size => ValidSize c size
    | .rmspace base size => ⟨base, size⟩ ∈ s.live) ∧ t = apply s op

/-- A `BoxMap` with regions of whole chunks and no space handed out. -/
structure Reserved (map : BoxMap) : Prop where
  tracks : ∀ r ∈ map.regions, r.Tracks map.opts.chunksize []
  disjoint : (map.regions.map AddrRegion.space).Pairwise Space.Disjoint

/-- What holds of every state of a run. -/
structure Inv (c : Nat) (spans : List Space) (s : State) : Prop where
  spans_eq : s.map.regions.map AddrRegion.space = spans
  tracks : ∀ r ∈ s.map.regions, r.Tracks c s.live
  aligned : ∀ l ∈ s.live, c ∣ l.base ∧ c ∣ l.size
  pos : ∀ l ∈ s.live, 0 < l.size
  inside : ∀ l ∈ s.live, ∃ r ∈ s.map.regions,
    r.base ≤ l.base ∧ l.base + l.size ≤ r.base + r.size
  disjoint : s.live.Pairwise Space.Disjoint

section

variable {c n : Nat}

/-- `allocslot` takes the lowest run of the first region that has one. -/
theorem allocslot_spec {regions : List AddrRegion} (hshaped : ∀ r ∈ regions, r.Shaped c)
    (hn : n * c < 2 ^ 64) (hpos : 0 < n) :
    (∃ pre r post i, regions = pre ++ r :: post ∧
        (∀ q ∈ pre, ∀ j, ¬IsRun (Set1 q.alloc.bitvec) q.alloc.size n j) ∧
        IsFirstRun (Set1 r.alloc.bitvec) r.alloc.size n i ∧
        allocslot regions (n * c) = (r.base + i * c, pre ++
          { r with
            alloc := { r.alloc with bitvec := bitvecSet r.alloc.bitvec i n true }
            active := r.active + 1 } :: post)) ∨
      (∀ q ∈ regions, ∀ j, ¬IsRun (Set1 q.alloc.bitvec) q.alloc.size n j) ∧
        allocslot regions (n * c) = (0, regions) := by
  induction regions with
  | nil => exact .inr ⟨by simp, rfl⟩
  | cons r regions ih =>
      have hr := hshaped r List.mem_cons_self
      rw [allocslot]
      rcases hr.extallocAlloc_spec hn hpos with ⟨i, hrun, heq⟩ | ⟨hnone, heq⟩
      · have hne : r.base + i * c ≠ 0 := by
          have := hr.ne_zero
          omega
        refine .inl ⟨[], r, regions, i, rfl, by simp, hrun, ?_⟩
        simp only [heq, if_pos hne]
        rfl
      · simp only [heq]
        rw [if_neg (by simp)]
        rcases ih fun q hq => hshaped q (List.mem_cons_of_mem _ hq) with
          ⟨pre, q, post, i, rfl, hpre, hrun, hslot⟩ | ⟨hall, hslot⟩
        · refine .inl ⟨r :: pre, q, post, i, rfl, ?_, hrun, by rw [hslot]; rfl⟩
          intro p hp
          rcases List.mem_cons.mp hp with rfl | hp
          · exact hnone
          · exact hpre p hp
        · refine .inr ⟨?_, by rw [hslot]⟩
          intro p hp
          rcases List.mem_cons.mp hp with rfl | hp
          · exact hnone
          · exact hall p hp

end

theorem apart_of_append {pre post : List AddrRegion} {r : AddrRegion}
    (hdis : ((pre ++ r :: post).map AddrRegion.space).Pairwise Space.Disjoint) :
    ∀ q, q ∈ pre ∨ q ∈ post → q.space.Disjoint r.space := by
  rw [List.map_append, List.map_cons, List.pairwise_append, List.pairwise_cons] at hdis
  rintro q (hq | hq)
  · exact hdis.2.2 _ (List.mem_map_of_mem hq) _ List.mem_cons_self
  · exact Std.Symm.symm _ _ (hdis.2.1.1 _ (List.mem_map_of_mem hq))

theorem space_deleteIn (base size : Nat) (r : AddrRegion) :
    (deleteIn base size r).space = r.space := by
  rw [deleteIn]
  split <;> rfl

namespace Inv

variable {c : Nat} {spans : List Space} {s : State} (h : Inv c spans s)

include h

/-- Of the regions only the one that a live space lies in meets it. -/
theorem inside_or_disjoint (hdis : spans.Pairwise Space.Disjoint) {l : Space} (hl : l ∈ s.live)
    {q : AddrRegion} (hq : q ∈ s.map.regions) :
    (q.base ≤ l.base ∧ l.base + l.size ≤ q.base + q.size) ∨ l.Disjoint q.space := by
  obtain ⟨r, hr, hlo, hhi⟩ := h.inside l hl
  have hspans := h.spans_eq ▸ hdis
  by_cases hqr : q.space = r.space
  · rw [AddrRegion.space, AddrRegion.space, Space.mk.injEq] at hqr
    exact .inl ⟨hqr.1 ▸ hlo, by rw [hqr.1, hqr.2]; exact hhi⟩
  · have happart := hspans.forall (List.mem_map_of_mem hq) (List.mem_map_of_mem hr) hqr
    rcases happart with hap | hap <;> simp only [AddrRegion.space] at hap
    · exact .inr (.inr (by simp only [AddrRegion.space]; omega))
    · exact .inr (.inl (by simp only [AddrRegion.space]; omega))

theorem addspace (hdis : spans.Pairwise Space.Disjoint) {size : Nat} (hsize : ValidSize c size) :
    Inv c spans (apply s (.addspace size)) := by
  obtain ⟨hpos, ⟨n, hn⟩, hlt⟩ := hsize
  obtain rfl : size = n * c := hn.trans (Nat.mul_comm _ _)
  have hnpos : 0 < n := Nat.pos_of_mul_pos_right hpos
  rcases allocslot_spec (fun r hr => (h.tracks r hr).shaped) hlt hnpos with
    ⟨pre, r, post, i, heq, -, hrun, hslot⟩ | ⟨-, hslot⟩
  · have hr : r ∈ s.map.regions := heq ▸ List.mem_append_right _ List.mem_cons_self
    have htr := h.tracks r hr
    have hroom := hrun.1.1
    have hend := htr.shaped.chunk_le hroom
    have hne : r.base + i * c ≠ 0 := by
      have := htr.shaped.ne_zero
      omega
    -- the new space lies in `r`, and so touches no other region
    have hother : ∀ m : Space, m.Disjoint r.space →
        (Space.mk (r.base + i * c) (n * c)).Disjoint m := by
      intro m hm
      rcases hm with hm | hm <;> simp only [AddrRegion.space] at hm
      · exact .inr (by simp only; omega)
      · exact .inl (by simp only; omega)
    have hapart : ∀ q, q ∈ pre ∨ q ∈ post → q.space.Disjoint r.space :=
      apart_of_append (heq ▸ h.spans_eq ▸ hdis)
    simp only [apply, boxmapAddspace, hslot]
    rw [if_neg hne]
    refine ⟨?_, ?_, ?_, ?_, ?_, ?_⟩
    · rw [← h.spans_eq, heq, List.map_append, List.map_append]
      rfl
    · intro q hq
      rcases List.mem_append.mp hq with hq | hq
      · exact (h.tracks q (heq ▸ List.mem_append_left _ hq)).cons (hother _ (hapart q (.inl hq))) hpos
      rcases List.mem_cons.mp hq with rfl | hq
      · exact htr.alloc hroom hnpos
      · exact (h.tracks q (heq ▸ List.mem_append_right _ (List.mem_cons_of_mem _ hq))).cons
          (hother _ (hapart q (.inr hq))) hpos
    · rintro l hl
      rcases List.mem_cons.mp hl with rfl | hl
      · refine ⟨?_, Nat.dvd_mul_left _ _⟩
        rw [htr.shaped.base_eq]
        exact dvd_add (Nat.dvd_mul_left _ _) (Nat.dvd_mul_left _ _)
      · exact h.aligned l hl
    · rintro l hl
      rcases List.mem_cons.mp hl with rfl | hl
      · exact hpos
      · exact h.pos l hl
    · rintro l hl
      rcases List.mem_cons.mp hl with rfl | hl
      · exact ⟨_, List.mem_append_right _ List.mem_cons_self, Nat.le_add_right _ _, hend⟩
      · obtain ⟨q, hq, hin⟩ := h.inside l hl
        rw [heq] at hq
        rcases List.mem_append.mp hq with hq | hq
        · exact ⟨q, List.mem_append_left _ hq, hin⟩
        rcases List.mem_cons.mp hq with rfl | hq
        · exact ⟨_, List.mem_append_right _ List.mem_cons_self, hin⟩
        · exact ⟨q, List.mem_append_right _ (List.mem_cons_of_mem _ hq), hin⟩
    · refine List.pairwise_cons.mpr ⟨fun l hl => ?_, h.disjoint⟩
      rcases h.inside_or_disjoint hdis hl hr with ⟨hlo, hhi⟩ | hapart
      · exact htr.disjoint_of_run hrun.1 hnpos hl (h.pos l hl) (h.aligned l hl).1
          (h.aligned l hl).2 hlo hhi
      · exact hother l hapart
  · simp only [apply, boxmapAddspace, hslot]
    exact ⟨h.spans_eq, h.tracks, h.aligned, h.pos, h.inside, h.disjoint⟩

/-- Where there is no room, nothing changes. -/
theorem addspace_full {size : Nat} (hsize : ValidSize c size)
    (hzero : (boxmapAddspace s.map size).1 = 0) : (boxmapAddspace s.map size).2 = s.map := by
  obtain ⟨hpos, ⟨n, hn⟩, hlt⟩ := hsize
  obtain rfl : size = n * c := hn.trans (Nat.mul_comm _ _)
  have hnpos : 0 < n := Nat.pos_of_mul_pos_right hpos
  rcases allocslot_spec (fun r hr => (h.tracks r hr).shaped) hlt hnpos with
    ⟨pre, r, post, i, heq, -, -, hslot⟩ | ⟨-, hslot⟩
  · have hr : r ∈ s.map.regions := heq ▸ List.mem_append_right _ List.mem_cons_self
    have hne := (h.tracks r hr).shaped.ne_zero
    simp only [boxmapAddspace, hslot] at hzero
    omega
  · simp only [boxmapAddspace, hslot]

/-- The address handed out is that of a chunk. -/
theorem addspace_base (hdis : spans.Pairwise Space.Disjoint) {size : Nat}
    (hsize : ValidSize c size) (hne : (boxmapAddspace s.map size).1 ≠ 0) :
    c ∣ (boxmapAddspace s.map size).1 ∧ (boxmapAddspace s.map size).1 + size < 2 ^ 64 := by
  have hadd := h.addspace hdis hsize
  simp only [apply, if_neg hne] at hadd
  obtain ⟨r, hr, -, hhi⟩ := hadd.inside _ List.mem_cons_self
  have hlt := (hadd.tracks r hr).shaped.lt
  exact ⟨(hadd.aligned _ List.mem_cons_self).1, by simp only at hhi; omega⟩

/-- What has just been handed out can be taken back without a trace. -/
theorem rmspace_addspace (hdis : spans.Pairwise Space.Disjoint) {size : Nat}
    (hsize : ValidSize c size) (hne : (boxmapAddspace s.map size).1 ≠ 0) :
    boxmapRmspace (boxmapAddspace s.map size).2 (boxmapAddspace s.map size).1 size = s.map := by
  obtain ⟨hpos, ⟨n, hn⟩, hlt⟩ := hsize
  obtain rfl : size = n * c := hn.trans (Nat.mul_comm _ _)
  have hnpos : 0 < n := Nat.pos_of_mul_pos_right hpos
  rcases allocslot_spec (fun r hr => (h.tracks r hr).shaped) hlt hnpos with
    ⟨pre, r, post, i, heq, -, hrun, hslot⟩ | ⟨-, hslot⟩
  · have hr : r ∈ s.map.regions := heq ▸ List.mem_append_right _ List.mem_cons_self
    have hshaped := (h.tracks r hr).shaped
    have hroom := hrun.1.1
    have hend := hshaped.chunk_le hroom
    have hapart : ∀ q, q ∈ pre ∨ q ∈ post → q.space.Disjoint r.space :=
      apart_of_append (heq ▸ h.spans_eq ▸ hdis)
    have hother : ∀ q, q ∈ pre ∨ q ∈ post → deleteIn (r.base + i * c) (n * c) q = q := by
      intro q hq
      have hmem : q ∈ s.map.regions := by
        rw [heq]
        rcases hq with hq | hq
        · exact List.mem_append_left _ hq
        · exact List.mem_append_right _ (List.mem_cons_of_mem _ hq)
      rw [deleteIn, Nat.mod_eq_of_lt (h.tracks q hmem).shaped.lt, if_neg]
      rcases hapart q hq with hq | hq <;> simp only [AddrRegion.space] at hq <;> omega
    have hself : deleteIn (r.base + i * c) (n * c)
        { r with
          alloc := { r.alloc with bitvec := bitvecSet r.alloc.bitvec i n true }
          active := r.active + 1 } = r := by
      have hlen := hshaped.length_bitvec
      have hclear : bitvecSet (bitvecSet r.alloc.bitvec i n true) i n false = r.alloc.bitvec :=
        bitvecSet_false_true (by omega) fun j hlo hhi => not_set1_iff.mp (hrun.1.2 j hlo hhi)
      have hbits : (bitvecSet r.alloc.bitvec i n true).length = r.alloc.bitvec.length :=
        length_bitvecSet
      have hmarked : AddrRegion.Shaped c
          { r with
            active := r.active + 1
            alloc := { r.alloc with bitvec := bitvecSet r.alloc.bitvec i n true } } :=
        hshaped.with_bitvec hbits
      have hdelete := hmarked.deleteIn_chunks hnpos hroom
      rw [hdelete]
      simp only [hclear, Nat.add_sub_cancel]
    simp only [boxmapRmspace, boxmapAddspace, hslot, deleteslot, List.map_append, List.map_cons,
      hself]
    rw [List.map_congr_left (fun q hq => hother q (.inl hq)),
      List.map_congr_left (fun q hq => hother q (.inr hq)), List.map_id', List.map_id', ← heq]
  · exact absurd (by simp [boxmapAddspace, hslot]) hne

theorem rmspace (hdis : spans.Pairwise Space.Disjoint) (base size : Nat)
    (hl : ⟨base, size⟩ ∈ s.live) : Inv c spans (apply s (.rmspace base size)) := by
  have hsub : ∀ m ∈ s.live.erase ⟨base, size⟩, m ∈ s.live := fun m hm =>
    List.mem_of_mem_erase hm
  refine ⟨?_, ?_, fun m hm => h.aligned m (hsub m hm), fun m hm => h.pos m (hsub m hm), ?_,
    h.disjoint.sublist List.erase_sublist⟩
  · simp only [apply, boxmapRmspace, deleteslot, List.map_map]
    rw [← h.spans_eq]
    exact List.map_congr_left fun r _ => space_deleteIn base size r
  · intro q hq
    obtain ⟨r, hr, rfl⟩ := List.mem_map.mp hq
    have halign := h.aligned _ hl
    rcases h.inside_or_disjoint hdis hl hr with ⟨hlo, hhi⟩ | hapart
    · exact (h.tracks r hr).delete hl h.disjoint h.pos halign.1 halign.2 hlo hhi
    · exact (h.tracks r hr).erase hapart hl h.disjoint h.pos
  · intro m hm
    obtain ⟨r, hr, hin⟩ := h.inside m (hsub m hm)
    have hspace := space_deleteIn base size r
    rw [AddrRegion.space, AddrRegion.space, Space.mk.injEq] at hspace
    refine ⟨deleteIn base size r, List.mem_map_of_mem hr, ?_⟩
    rw [hspace.1, hspace.2]
    exact hin

/-- A space lies in one region. -/
theorem countP_holds (hdis : spans.Pairwise Space.Disjoint) {l : Space} (hl : l ∈ s.live) :
    (s.map.regions.countP fun r => decide (r.Holds l)) = 1 := by
  obtain ⟨r, hr, hlo, hhi⟩ := h.inside l hl
  have hpos := h.pos l hl
  have hspans := h.spans_eq ▸ hdis
  obtain ⟨pre, post, heq⟩ := List.append_of_mem hr
  rw [heq] at hspans
  have hholds : r.Holds l := ⟨hlo, by omega⟩
  have hnot : ∀ q, q ∈ pre ∨ q ∈ post → ¬decide (q.Holds l) = true := by
    intro q hq hin
    have hin := of_decide_eq_true hin
    have hlo' := hin.1
    have hhi' := hin.2
    rcases apart_of_append hspans q hq with hap | hap <;>
      simp only [AddrRegion.space] at hap <;> omega
  rw [heq, List.countP_append, List.countP_cons, if_pos (decide_eq_true hholds),
    List.countP_eq_zero.mpr fun q hq => hnot q (.inl hq),
    List.countP_eq_zero.mpr fun q hq => hnot q (.inr hq)]

end Inv

theorem sum_map_ite {β : Type} (p : β → Bool) (bs : List β) :
    (bs.map fun b => if p b then 1 else 0).sum = bs.countP p := by
  induction bs with
  | nil => rfl
  | cons b bs ih =>
      rw [List.map_cons, List.sum_cons, ih, List.countP_cons, Nat.add_comm]

/-- Count the pairs of a relation by either side. -/
theorem sum_map_countP {α β : Type} (p : α → β → Bool) (as : List α) (bs : List β) :
    (as.map fun a => bs.countP (p a)).sum = (bs.map fun b => as.countP (p · b)).sum := by
  induction as with
  | nil => simp
  | cons a as ih =>
      simp only [List.map_cons, List.sum_cons, List.countP_cons, ih, List.sum_map_add]
      rw [sum_map_ite, Nat.add_comm]

namespace Inv

variable {c : Nat} {spans : List Space} {s : State} (h : Inv c spans s)

include h

theorem active (hdis : spans.Pairwise Space.Disjoint) : boxmapActive s.map = s.live.length := by
  have hcount : s.map.regions.map AddrRegion.active =
      s.map.regions.map fun r => s.live.countP fun l => decide (r.Holds l) :=
    List.map_congr_left fun r hr => (h.tracks r hr).active
  have hone : (s.live.map fun l => s.map.regions.countP fun r => decide (r.Holds l)) =
      s.live.map fun _ => 1 :=
    List.map_congr_left fun l hl => h.countP_holds hdis hl
  rw [boxmapActive, hcount, sum_map_countP fun (r : AddrRegion) l => decide (r.Holds l), hone]
  simp

end Inv

/-- What `boxmap_addspace` returns for `n` chunks: the lowest run of free
chunks of the first region that has one. -/
def LowestFit (c : Nat) (live : List Space) (regions : List AddrRegion) (n p : Nat) : Prop :=
  (∃ pre r post i, regions = pre ++ r :: post ∧
      (∀ q ∈ pre, ∀ j, ¬IsRun (q.Used c live) (q.size / c) n j) ∧
      IsFirstRun (r.Used c live) (r.size / c) n i ∧ p = r.base + i * c ∧ p ≠ 0) ∨
    (∀ q ∈ regions, ∀ j, ¬IsRun (q.Used c live) (q.size / c) n j) ∧ p = 0

/-- The live spaces are apart, and the allocator knows them all. -/
structure Sound (c : Nat) (spans : List Space) (s : State) : Prop where
  spans_eq : s.map.regions.map AddrRegion.space = spans
  aligned : ∀ l ∈ s.live, c ∣ l.base ∧ c ∣ l.size
  disjoint : s.live.Pairwise Space.Disjoint
  inside : ∀ l ∈ s.live, ∃ r ∈ spans, r.base ≤ l.base ∧ l.base + l.size ≤ r.base + r.size
  bits : ∀ r ∈ s.map.regions, ∀ i, i < r.size / c →
    (bit r.alloc.bitvec i = 1 ↔ ∃ l ∈ s.live, l.HasChunk c (r.base + i * c))
  active : boxmapActive s.map = s.live.length
  addspace : ∀ size, ValidSize c size →
    LowestFit c s.live s.map.regions (size / c) (boxmapAddspace s.map size).1

namespace AddrRegion.Tracks

variable {c n i : Nat} {r : AddrRegion} {live : List Space} (h : r.Tracks c live)

include h

theorem size_div : r.size / c = r.alloc.size := by
  rw [h.shaped.size_eq, Nat.mul_div_cancel _ h.shaped.chunksize_pos]

theorem isRun_iff :
    IsRun (Set1 r.alloc.bitvec) r.alloc.size n i ↔ IsRun (r.Used c live) (r.size / c) n i := by
  rw [h.size_div, IsRun, IsRun]
  refine and_congr_right fun hroom => forall_congr' fun j => forall_congr' fun _ =>
    forall_congr' fun hhi => not_congr (h.bits j (by omega))

end AddrRegion.Tracks

theorem Inv.sound {c : Nat} {spans : List Space} {s : State} (h : Inv c spans s)
    (hdis : spans.Pairwise Space.Disjoint) : Sound c spans s where
  spans_eq := h.spans_eq
  aligned := h.aligned
  disjoint := h.disjoint
  inside l hl := by
    obtain ⟨r, hr, hin⟩ := h.inside l hl
    exact ⟨r.space, h.spans_eq ▸ List.mem_map_of_mem hr, hin⟩
  bits r hr i hi := (h.tracks r hr).bits i ((h.tracks r hr).size_div ▸ hi)
  active := h.active hdis
  addspace size hsize := by
    obtain ⟨hpos, ⟨n, hn⟩, hlt⟩ := hsize
    obtain rfl : size = n * c := hn.trans (Nat.mul_comm _ _)
    have hnpos : 0 < n := Nat.pos_of_mul_pos_right hpos
    have hcpos : 0 < c := Nat.pos_of_mul_pos_left hpos
    rw [Nat.mul_div_cancel _ hcpos, boxmapAddspace]
    rcases allocslot_spec (fun r hr => (h.tracks r hr).shaped) hlt hnpos with
      ⟨pre, r, post, i, heq, hpre, ⟨hrun, hmin⟩, hslot⟩ | ⟨hnone, hslot⟩
    · have htr : ∀ q ∈ pre ++ r :: post, q.Tracks c s.live := heq ▸ h.tracks
      have hr := htr r (List.mem_append_right _ List.mem_cons_self)
      refine .inl ⟨pre, r, post, i, heq, fun q hq j => ?_, ⟨?_, fun t ht => ?_⟩, by rw [hslot], ?_⟩
      · rw [← (htr q (List.mem_append_left _ hq)).isRun_iff]
        exact hpre q hq j
      · exact hr.isRun_iff.mp hrun
      · rw [← hr.isRun_iff]
        exact hmin t ht
      · have := hr.shaped.ne_zero
        rw [hslot]
        simp only
        omega
    · refine .inr ⟨fun q hq j => ?_, by rw [hslot]⟩
      rw [← (h.tracks q hq).isRun_iff]
      exact hnone q hq j

theorem Reserved.inv {map : BoxMap} (h : Reserved map) :
    Inv map.opts.chunksize (map.regions.map AddrRegion.space) ⟨map, []⟩ :=
  ⟨rfl, h.tracks, by simp, by simp, by simp, .nil⟩

/-- Every run of `boxmap_addspace` and `boxmap_rmspace` on a reserved `BoxMap`
hands out spaces that are apart, loses none of them, and finds room whenever
there is some. -/
theorem boxmap_sound {map : BoxMap} {s : State} (hres : Reserved map)
    (hrun : Reaches (Step map.opts.chunksize) anyStep ⟨map, []⟩ s) :
    Sound map.opts.chunksize (map.regions.map AddrRegion.space) s := by
  have hinv : Inv map.opts.chunksize (map.regions.map AddrRegion.space) s := by
    apply hrun.invariant hres.inv
    rintro s op _ hs - ⟨hop, rfl⟩
    cases op with
    | addspace size => exact hs.addspace hres.disjoint hop
    | rmspace base size => exact hs.rmspace hres.disjoint base size hop
  exact hinv.sound hres.disjoint

theorem tracks_regionNew {base size c mapbase mapsize : Nat} (hbase : c ∣ base) (hsize : c ∣ size)
    (hne : 0 < base) (hlt : base + size < 2 ^ 64) :
    (regionNew base size c mapbase mapsize).Tracks c [] := by
  refine ⟨⟨rfl, (Nat.div_mul_cancel hbase).symm, (Nat.div_mul_cancel hsize).symm,
    List.length_replicate, hne, hlt⟩, fun i hi => ?_, rfl⟩
  have hzero : bit (extallocNew base size c).bitvec i = 0 := by
    have hbyte : (extallocNew base size c).bitvec.getD (i / 8) 0 = 0 := by
      simp only [extallocNew, List.getD_eq_getElem?_getD, List.getElem?_replicate]
      split <;> rfl
    rw [bit, hbyte]
    simp
  simp [regionNew, Set1, hzero, AddrRegion.Used]

/-- Three chunks of 8 bytes and, further on, two more. -/
def twoRegions : BoxMap := ⟨[regionNew 8 24 8 8 24, regionNew 64 16 8 64 16], ⟨8, 0⟩⟩

theorem boxmap_sound_after_rmspace :
    let s := apply (apply (apply ⟨twoRegions, []⟩ (.addspace 16)) (.addspace 16)) (.rmspace 8 16)
    s.live = [⟨64, 16⟩] ∧ Sound 8 [⟨8, 24⟩, ⟨64, 16⟩] s := by
  intro s
  have hres : Reserved twoRegions := by
    refine ⟨fun r hr => ?_, by simp [twoRegions, regionNew, AddrRegion.space, Space.Disjoint]⟩
    simp only [twoRegions, List.mem_cons, List.not_mem_nil, or_false] at hr
    rcases hr with rfl | rfl
    · exact tracks_regionNew (by decide) (by decide) (by decide) (by decide)
    · exact tracks_regionNew (by decide) (by decide) (by decide) (by decide)
  have hsize : ValidSize 8 16 := ⟨by decide, by decide, by decide⟩
  refine ⟨by decide, boxmap_sound hres ?_⟩
  have hfirst : Step 8 ⟨twoRegions, []⟩ (.addspace 16) _ := ⟨hsize, rfl⟩
  have hsecond : Step 8 (apply ⟨twoRegions, []⟩ (.addspace 16)) (.addspace 16) _ := ⟨hsize, rfl⟩
  have hlive : Space.mk 8 16 ∈
      (apply (apply ⟨twoRegions, []⟩ (.addspace 16)) (.addspace 16)).live := by
    decide
  exact (((Reaches.refl _).tail trivial hfirst).tail trivial hsecond).tail trivial ⟨hlive, rfl⟩

end LfiRuntime.Boxmap
