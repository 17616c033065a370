import LfiRuntime.Boxmap.Spaces

/-!
How many boxes an engine has room for: the reservation of `lfi_new`, and runs
of `lfi_box_new` and `lfi_box_free` on it.
-/

namespace LfiRuntime.Boxmap

open LfiRuntime.Config
open LfiRuntime.FirstFit
open LfiRuntime.Runs

/-- The part of `lfi_new` that reserves address space. -/
def lfiNew (t : Target) (boxsize nsandboxes : Nat) (h : Host) : Option BoxMap :=
  let bmOpts : BoxMapOptions := ⟨gb 4, t.regionGuard⟩
  let bm := boxmapNew bmOpts
  let size := (nsandboxes * boxFootprint t boxsize + bmOpts.chunksize + bmOpts.guardsize * 2) % 2 ^ 64
  if nsandboxes > 0 then
    let r := boxmapReserve bm h size
    if r.1 then some r.2.1 else none
  else some bm

/-- What `lfi_box_new` does with the address space, where `setup` says whether
the rest of it succeeds. -/
def lfiBoxNew (t : Target) (boxsize : Nat) (map : BoxMap) (setup : Bool) : Option Nat × BoxMap :=
  let base := boxmapAddspace map (boxFootprint t boxsize)
  if base.1 = 0 then (none, base.2)
  else if !setup then (none, boxmapRmspace base.2 base.1 (boxFootprint t boxsize))
  else (some base.1, base.2)

def lfiBoxFree (t : Target) (boxsize : Nat) (map : BoxMap) (base : Nat) : BoxMap :=
  boxmapRmspace map base (boxFootprint t boxsize)

structure EngineState where
  map : BoxMap
  boxes : List Nat

inductive EngineOp
  | new (setup : Bool)
  | free (base : Nat)

def applyEngine (t : Target) (boxsize : Nat) (s : EngineState) : EngineOp → EngineState
  | .new setup =>
      let r := lfiBoxNew t boxsize s.map setup
      ⟨r.2, r.1.toList ++ s.boxes⟩
  | .free base => ⟨lfiBoxFree t boxsize s.map base, s.boxes.erase base⟩

/-- Only a live box is freed. -/
def EngineStep (t : Target) (boxsize : Nat) (s : EngineState) (op : EngineOp) (u : EngineState) :
    Prop :=
  (match op with
    | .new _ => True
    | .free base => base ∈ s.boxes) ∧ u = applyEngine t boxsize s op

/-! The reservation. -/

section

variable {c a b : Nat}

theorem ceilp_eq (hc : 0 < c) (ha : a + c < 2 ^ 64) :
    c ∣ ceilp a c ∧ a ≤ ceilp a c ∧ ceilp a c < a + c := by
  have hmod := Nat.div_add_mod a c
  have hlt := Nat.mod_lt a hc
  rw [ceilp]
  split
  · rename_i hzero
    exact ⟨Nat.dvd_of_mod_eq_zero hzero, le_rfl, by omega⟩
  · rename_i hne
    rw [Nat.mod_eq_of_lt (by omega)]
    refine ⟨⟨a / c + 1, ?_⟩, by omega, by omega⟩
    rw [Nat.mul_add, Nat.mul_one]
    omega

theorem dvd_truncp (a c : Nat) : c ∣ truncp a c := Nat.dvd_sub_mod a

/-- Whole chunks fit between the rounded ends of a range that has a chunk to
spare. -/
theorem chunks_fit (hc : 0 < c) (ha : a + c < 2 ^ 64) {m : Nat} (hb : b = a + m * c + c) :
    ceilp a c + m * c ≤ truncp b c ∧ truncp b c ≤ b := by
  obtain ⟨⟨x, hx⟩, hlo, hhi⟩ := ceilp_eq hc ha
  obtain ⟨y, hy⟩ := dvd_truncp b c
  have hle : truncp b c ≤ b := Nat.sub_le _ _
  have hmod : b < truncp b c + c := by
    have := Nat.mod_lt b hc
    have := Nat.mod_le b c
    rw [truncp]
    omega
  refine ⟨?_, hle⟩
  have hlt : c * (x + m) < c * (y + 1) := by
    rw [Nat.mul_add, Nat.mul_add, ← hx, ← hy, Nat.mul_comm c m]
    omega
  have hxy : x + m ≤ y := Nat.lt_succ_iff.mp (Nat.lt_of_mul_lt_mul_left hlt)
  have hmul := Nat.mul_le_mul_left c hxy
  rw [Nat.mul_add, ← hx, ← hy, Nat.mul_comm c m] at hmul
  exact hmul

end

theorem mmapAny_spec (h : Host) (size : Nat) :
    (∃ p h', mmapAny h size = (some p, h') ∧ 0 < p ∧ p + size < 2 ^ 64) ∨
      ∃ h', mmapAny h size = (none, h') := by
  rw [mmapAny]
  cases hp : h.reserved.head?.join with
  | none => exact .inr ⟨_, rfl⟩
  | some p =>
      by_cases hin : 0 < p ∧ p + size < 2 ^ 64
      · refine .inl ⟨p, { h with reserved := h.reserved.tail }, ?_, hin⟩
        simpa [hin.1] using hin.2
      · refine .inr ⟨{ h with reserved := h.reserved.tail }, ?_⟩
        simpa using hin

/-- A reservation that may not shrink is made at once or not at all. -/
theorem reserve_spec (h : Host) (fuel : Nat) {size : Nat} (hpos : 0 < size) :
    (∃ p h', reserve h size (fuel + 1) size = (some (size, p), h') ∧ 0 < p ∧
        p + size < 2 ^ 64) ∨
      ∃ h', reserve h size (fuel + 1) size = (none, h') := by
  rw [reserve]
  rcases mmapAny_spec h size with ⟨p, h', heq, hp⟩ | ⟨h', heq⟩
  · refine .inl ⟨p, h', ?_, hp⟩
    simp [heq]
  · refine .inr ⟨h', ?_⟩
    rw [heq]
    exact if_pos (by omega)

/-- A reservation of a known size is one region, inside the range the host
gave. -/
theorem boxmapReserve_spec {map map' : BoxMap} {h h' : Host} {size : Nat} (hpos : 0 < size)
    (hres : boxmapReserve map h size = (true, map', h')) :
    ∃ p h₁ h₂, 0 < p ∧ p + size < 2 ^ 64 ∧ addregion map h₁ p size = (some map', h₂) := by
  rw [boxmapReserve, if_neg (by omega)] at hres
  simp only [ADDR_REGION_MAX, reserveRegions] at hres
  rcases reserve_spec h 63 hpos with ⟨p, h₁, heq, hp, hroom⟩ | ⟨h₁, heq⟩
  · simp only [heq] at hres
    cases hadd : addregion map h₁ p size with
    | mk added h₂ =>
        simp only [hadd] at hres
        cases added with
        | none => cases (Prod.mk.inj hres).1
        | some m =>
            simp only [Nat.zero_add, ge_iff_le, le_refl, if_true, decide_true] at hres
            obtain rfl := (Prod.mk.inj (Prod.mk.inj hres).2).1
            exact ⟨p, h₁, h₂, hp, hroom, hadd⟩
  · simp only [heq] at hres
    have hle := of_decide_eq_true (Prod.mk.inj hres).1
    omega

theorem addregion_spec {map map' : BoxMap} {h h' : Host} {base size : Nat}
    (hadd : addregion map h base size = (some map', h')) :
    let c := map.opts.chunksize
    let g := map.opts.guardsize
    let alignbase := ceilp ((base + g) % 2 ^ 64) c
    map' = { map with regions := map.regions ++ [regionNew alignbase
      ((2 ^ 64 + truncp ((2 ^ 64 + base + size - g) % 2 ^ 64) c - alignbase) % 2 ^ 64) c base
      size] } := by
  rw [addregion] at hadd
  split at hadd
  · cases (Prod.mk.inj hadd).1
  · simp only at hadd
    split at hadd
    · cases (Prod.mk.inj hadd).1
    · exact (Option.some.inj (Prod.mk.inj hadd).1).symm

/-- The reservation of `lfi_new` is one region of whole chunks with room for
the boxes asked for. -/
theorem lfiNew_spec {t : Target} {boxsize n : Nat} {h : Host} {map : BoxMap}
    (hn : 0 < n) (hfp : gb 4 ∣ boxFootprint t boxsize)
    (hwrap : n * boxFootprint t boxsize + gb 4 + t.regionGuard * 2 < 2 ^ 64)
    (hnew : lfiNew t boxsize n h = some map) :
    map.opts.chunksize = gb 4 ∧ ∃ r, map.regions = [r] ∧ r.Tracks (gb 4) [] ∧
      n * boxFootprint t boxsize ≤ r.size := by
  have hc : 0 < gb 4 := by decide
  obtain ⟨k, hk⟩ := hfp
  simp only [lfiNew, if_pos hn, Nat.mod_eq_of_lt hwrap] at hnew
  set size := n * boxFootprint t boxsize + gb 4 + t.regionGuard * 2 with hsize
  split at hnew
  swap
  · cases hnew
  rename_i hok
  have hmap := Option.some.inj hnew
  cases hres : boxmapReserve (boxmapNew ⟨gb 4, t.regionGuard⟩) h size with
  | mk ok out =>
      rw [hres] at hok hmap
      simp only at hok hmap
      obtain ⟨m, h'⟩ := out
      simp only at hmap
      subst hmap hok
      obtain ⟨p, h₁, h₂, hp, hroom, hadd⟩ := boxmapReserve_spec (by omega) hres
      have hmap := addregion_spec hadd
      simp only [boxmapNew, List.nil_append] at hmap
      have hstart : (p + t.regionGuard) % 2 ^ 64 = p + t.regionGuard := Nat.mod_eq_of_lt (by omega)
      have hstop : (2 ^ 64 + p + size - t.regionGuard) % 2 ^ 64 = p + size - t.regionGuard := by
        rw [show 2 ^ 64 + p + size - t.regionGuard = 2 ^ 64 + (p + size - t.regionGuard) by omega,
          Nat.add_mod_left]
        exact Nat.mod_eq_of_lt (by omega)
      rw [hstart, hstop] at hmap
      have hmul : n * boxFootprint t boxsize = n * k * gb 4 := by
        rw [hk, Nat.mul_comm (gb 4), Nat.mul_assoc]
      obtain ⟨hdvd, hlo, hhi⟩ := ceilp_eq (a := p + t.regionGuard) hc (by omega)
      obtain ⟨hfit, hle⟩ := chunks_fit (a := p + t.regionGuard) (b := p + size - t.regionGuard)
        (m := n * k) hc (by omega) (by omega)
      set lo := ceilp (p + t.regionGuard) (gb 4)
      set hi := truncp (p + size - t.regionGuard) (gb 4)
      have halign : (2 ^ 64 + hi - lo) % 2 ^ 64 = hi - lo := by
        rw [show 2 ^ 64 + hi - lo = 2 ^ 64 + (hi - lo) by omega, Nat.add_mod_left]
        exact Nat.mod_eq_of_lt (by omega)
      rw [halign] at hmap
      subst hmap
      refine ⟨rfl, _, rfl, ?_, ?_⟩
      · exact tracks_regionNew hdvd (Nat.dvd_sub (dvd_truncp _ _) hdvd) (by omega) (by omega)
      · simp only [regionNew]
        omega

/-- The region keeps the guard at both ends of what the host has given. -/
theorem lfiNew_margins {t : Target} {boxsize n : Nat} {h : Host} {map : BoxMap} {r : AddrRegion}
    (hn : 0 < n) (hwrap : n * boxFootprint t boxsize + gb 4 + t.regionGuard * 2 < 2 ^ 64)
    (hnew : lfiNew t boxsize n h = some map) (hr : map.regions = [r])
    (hlt : r.base + r.size < 2 ^ 64) :
    r.mapbase + t.regionGuard ≤ r.base ∧
      r.base + r.size + t.regionGuard ≤ r.mapbase + r.mapsize := by
  have hc : 0 < gb 4 := by decide
  simp only [lfiNew, if_pos hn, Nat.mod_eq_of_lt hwrap] at hnew
  set size := n * boxFootprint t boxsize + gb 4 + t.regionGuard * 2 with hsize
  split at hnew
  swap
  · cases hnew
  rename_i hok
  have hmap := Option.some.inj hnew
  rcases hres : boxmapReserve (boxmapNew ⟨gb 4, t.regionGuard⟩) h size with ⟨ok, m, h'⟩
  rw [hres] at hok hmap
  simp only at hok hmap
  subst hmap hok
  obtain ⟨p, h₁, h₂, hp, hroom, hadd⟩ := boxmapReserve_spec (by omega) hres
  have hregion := addregion_spec hadd
  simp only [boxmapNew, List.nil_append] at hregion
  rw [hregion] at hr
  obtain ⟨hr, -⟩ := List.cons.inj hr
  have hstart : (p + t.regionGuard) % 2 ^ 64 = p + t.regionGuard := Nat.mod_eq_of_lt (by omega)
  have hstop : (2 ^ 64 + p + size - t.regionGuard) % 2 ^ 64 = p + size - t.regionGuard := by
    rw [show 2 ^ 64 + p + size - t.regionGuard = 2 ^ 64 + (p + size - t.regionGuard) by omega,
      Nat.add_mod_left]
    exact Nat.mod_eq_of_lt (by omega)
  rw [hstart, hstop] at hr
  obtain ⟨-, hlo, -⟩ := ceilp_eq (a := p + t.regionGuard) hc (by omega)
  have hle : truncp (p + size - t.regionGuard) (gb 4) ≤ p + size - t.regionGuard := Nat.sub_le _ _
  generalize ceilp (p + t.regionGuard) (gb 4) = lo at *
  generalize truncp (p + size - t.regionGuard) (gb 4) = hi at *
  subst hr
  simp only [regionNew] at hlt ⊢
  refine ⟨hlo, ?_⟩
  omega

theorem lfiNew_reserved {t : Target} {boxsize n : Nat} {h : Host} {map : BoxMap}
    (hfp : gb 4 ∣ boxFootprint t boxsize)
    (hwrap : n * boxFootprint t boxsize + gb 4 + t.regionGuard * 2 < 2 ^ 64)
    (hnew : lfiNew t boxsize n h = some map) : Reserved map ∧ map.opts.chunksize = gb 4 := by
  rcases Nat.eq_zero_or_pos n with rfl | hn
  · obtain rfl : boxmapNew ⟨gb 4, t.regionGuard⟩ = map := Option.some.inj hnew
    exact ⟨⟨fun q hq => absurd hq List.not_mem_nil, .nil⟩, rfl⟩
  · obtain ⟨hchunk, r, hregions, htracks, -⟩ := lfiNew_spec hn hfp hwrap hnew
    refine ⟨⟨fun q hq => ?_, ?_⟩, hchunk⟩
    · rw [hregions, List.mem_singleton] at hq
      rw [hq, hchunk]
      exact htracks
    · rw [hregions]
      exact List.pairwise_singleton _ _

/-! Runs. -/

/-- The spaces of the boxes. -/
def spaces (fp : Nat) (boxes : List Nat) : List Space := boxes.map fun base => ⟨base, fp⟩

theorem spaces_erase (fp base : Nat) (boxes : List Nat) :
    spaces fp (boxes.erase base) = (spaces fp boxes).erase ⟨base, fp⟩ :=
  List.map_erase (fun _ _ hab => (Space.mk.inj hab).1) boxes

/-- What holds of every state of an engine with one region `span`: the boxes are
live spaces `k` chunks long, a whole number of boxes from the start. -/
structure EngineInv (k : Nat) (span : Space) (s : EngineState) : Prop where
  inv : Inv (gb 4) [span] ⟨s.map, spaces (k * gb 4) s.boxes⟩
  placed : ∀ b ∈ s.boxes, ∃ q, b = span.base + q * k * gb 4

namespace EngineInv

variable {k : Nat} {span : Space} {s : EngineState} (h : EngineInv k span s)

include h

theorem exists_region : ∃ r, s.map.regions = [r] ∧ r.base = span.base ∧ r.size = span.size ∧
    r.Tracks (gb 4) (spaces (k * gb 4) s.boxes) := by
  have hspans := h.inv.spans_eq
  simp only [List.map_eq_singleton_iff] at hspans
  obtain ⟨r, hr, hspan⟩ := hspans
  subst hspan
  exact ⟨r, hr, rfl, rfl, h.inv.tracks r (hr ▸ List.mem_cons_self)⟩

/-- A chunk is in use with the block of a box around it. -/
theorem used_iff (hk : 0 < k) {r : AddrRegion} (hbase : r.base = span.base) (i : Nat) :
    r.Used (gb 4) (spaces (k * gb 4) s.boxes) i ↔ span.base + i / k * k * gb 4 ∈ s.boxes := by
  have hc : 0 < gb 4 := by decide
  have hchunk : ∀ q, (Space.mk (span.base + q * k * gb 4) (k * gb 4)).HasChunk (gb 4)
      (r.base + i * gb 4) ↔ i / k = q := by
    intro q
    have hend : r.base + i * gb 4 + gb 4 ≤ span.base + q * k * gb 4 + k * gb 4 ↔
        (i + 1) * gb 4 ≤ (q * k + k) * gb 4 := by
      rw [hbase, Nat.add_mul, Nat.add_mul]
      omega
    rw [Space.HasChunk, hend, hbase, Nat.add_le_add_iff_left, Nat.mul_le_mul_right_iff hc,
      Nat.mul_le_mul_right_iff hc, Nat.div_eq_iff hk]
    omega
  constructor
  · rintro ⟨l, hl, hin⟩
    obtain ⟨b, hb, rfl⟩ := List.mem_map.mp hl
    obtain ⟨q, rfl⟩ := h.placed b hb
    rw [(hchunk q).mp hin]
    exact hb
  · intro hb
    exact ⟨_, List.mem_map_of_mem hb, (hchunk _).mpr rfl⟩

theorem blocked (hk : 0 < k) {r : AddrRegion} (hbase : r.base = span.base) :
    Blocked (r.Used (gb 4) (spaces (k * gb 4) s.boxes)) k := by
  intro i j hij hi
  rw [h.used_iff hk hbase] at hi ⊢
  rwa [← hij]

theorem sound : Sound (gb 4) [span] ⟨s.map, spaces (k * gb 4) s.boxes⟩ :=
  h.inv.sound (List.pairwise_singleton _ _)

/-- A new space begins a whole number of boxes from the start. -/
theorem placed_addspace (hsize : ValidSize (gb 4) (k * gb 4))
    (hne : (boxmapAddspace s.map (k * gb 4)).1 ≠ 0) :
    ∃ q, (boxmapAddspace s.map (k * gb 4)).1 = span.base + q * k * gb 4 := by
  have hk : 0 < k := Nat.pos_of_mul_pos_right hsize.1
  obtain ⟨r, hr, hbase, -, -⟩ := h.exists_region
  rcases h.sound.addspace _ hsize with ⟨pre, q, post, i, heq, -, hrun, hp, -⟩ | ⟨-, hzero⟩
  · simp only [hr] at heq
    obtain rfl : r = q := by
      have hmem : q ∈ [r] := heq ▸ List.mem_append_right _ List.mem_cons_self
      exact (List.mem_singleton.mp hmem).symm
    rw [Nat.mul_div_cancel _ (by decide : 0 < gb 4)] at hrun
    obtain ⟨x, rfl⟩ := hrun.dvd hk (h.blocked hk hbase)
    exact ⟨x, by rw [hp, hbase, Nat.mul_comm k x]⟩
  · exact absurd hzero hne

/-- When no space is left, the engine has as many boxes as fit. -/
theorem le_length_of_full (hsize : ValidSize (gb 4) (k * gb 4))
    (hfull : (boxmapAddspace s.map (k * gb 4)).1 = 0) {n : Nat} (hn : n * (k * gb 4) ≤ span.size) :
    n ≤ s.boxes.length := by
  have hc : 0 < gb 4 := by decide
  have hk : 0 < k := Nat.pos_of_mul_pos_right hsize.1
  obtain ⟨r, hr, hbase, hsz, htr⟩ := h.exists_region
  have hnone : ∀ j, ¬IsRun (r.Used (gb 4) (spaces (k * gb 4) s.boxes)) (r.size / gb 4) k j := by
    rcases h.sound.addspace _ hsize with ⟨-, -, -, -, -, -, -, -, hne⟩ | ⟨hnone, -⟩
    · exact absurd hfull hne
    · rw [Nat.mul_div_cancel _ hc] at hnone
      exact hnone r (hr ▸ List.mem_cons_self)
  have hmem : ∀ q, q < n → span.base + q * k * gb 4 ∈ s.boxes := by
    intro q hq
    have hroom : (q * k / k + 1) * k ≤ r.size / gb 4 := by
      rw [Nat.mul_div_cancel _ hk, Nat.le_div_iff_mul_le hc, hsz, Nat.mul_assoc]
      exact (Nat.mul_le_mul_right _ hq).trans hn
    have hused := used_of_no_run (h.blocked hk hbase) hnone hroom
    rwa [h.used_iff hk hbase, Nat.mul_div_cancel _ hk] at hused
  have hinj : ((List.range n).map fun q => span.base + q * k * gb 4).Nodup := by
    refine List.nodup_range.map fun q q' hqq => ?_
    have hmul := Nat.mul_right_cancel hc (Nat.add_left_cancel hqq)
    exact Nat.mul_right_cancel hk hmul
  have hsub : ((List.range n).map fun q => span.base + q * k * gb 4) ⊆ s.boxes := by
    intro b hb
    obtain ⟨q, hq, rfl⟩ := List.mem_map.mp hb
    exact hmem q (List.mem_range.mp hq)
  simpa using (hinj.subperm hsub).length_le

theorem new (hsize : ValidSize (gb 4) (k * gb 4)) {t : Target} {boxsize : Nat}
    (hfp : boxFootprint t boxsize = k * gb 4) (setup : Bool) :
    EngineInv k span (applyEngine t boxsize s (.new setup)) := by
  have hdis : [span].Pairwise Space.Disjoint := List.pairwise_singleton _ _
  have hadd := h.inv.addspace hdis hsize
  simp only [apply] at hadd
  simp only [applyEngine, lfiBoxNew, hfp]
  cases hres : boxmapAddspace s.map (k * gb 4) with
  | mk p map =>
      simp only [hres] at hadd ⊢
      by_cases hzero : p = 0
      · rw [if_pos hzero] at hadd ⊢
        exact ⟨hadd, h.placed⟩
      rw [if_neg hzero] at hadd ⊢
      cases setup with
      | true =>
          refine ⟨hadd, fun b hb => ?_⟩
          rcases List.mem_cons.mp hb with rfl | hb
          · have hplaced := h.placed_addspace hsize
            rw [hres] at hplaced
            exact hplaced hzero
          · exact h.placed b hb
      | false =>
          have hrm := hadd.rmspace hdis p (k * gb 4) List.mem_cons_self
          simp only [apply, List.erase_cons_head] at hrm
          exact ⟨hrm, h.placed⟩

theorem free {t : Target} {boxsize : Nat} (hfp : boxFootprint t boxsize = k * gb 4) {base : Nat}
    (hmem : base ∈ s.boxes) : EngineInv k span (applyEngine t boxsize s (.free base)) := by
  have hrm := h.inv.rmspace (List.pairwise_singleton _ _) base (k * gb 4)
    (List.mem_map_of_mem hmem)
  simp only [apply, ← spaces_erase] at hrm
  simp only [applyEngine, lfiBoxFree, hfp]
  exact ⟨hrm, fun b hb => h.placed b (List.mem_of_mem_erase hb)⟩

theorem base_of_mem {b : Nat} (hb : b ∈ s.boxes) : 0 < b ∧ gb 4 ∣ b := by
  obtain ⟨r, -, hbase, -, htr⟩ := h.exists_region
  obtain ⟨q, rfl⟩ := h.placed b hb
  have hpos := htr.shaped.ne_zero
  have hdvd : gb 4 ∣ r.base := htr.shaped.base_eq ▸ Nat.dvd_mul_left _ _
  rw [hbase] at hpos hdvd
  exact ⟨by omega, dvd_add hdvd (Nat.dvd_mul_left _ _)⟩

end EngineInv

section

variable {t : Target} {boxsize n : Nat} {h : Host} {map : BoxMap} {s : EngineState}

/-- What holds after any run of `lfi_box_new` and `lfi_box_free`. -/
theorem engineInv_of_reaches (hext : gb 4 ∣ t.boxExternalGuard) (hbox : gb 4 ∣ boxsize)
    (hpos : 0 < boxsize) (hn : 0 < n)
    (hwrap : n * boxFootprint t boxsize + gb 4 + t.regionGuard * 2 < 2 ^ 64)
    (hnew : lfiNew t boxsize n h = some map)
    (hrun : Reaches (EngineStep t boxsize) anyStep ⟨map, []⟩ s) :
    ∃ k span, boxFootprint t boxsize = k * gb 4 ∧ ValidSize (gb 4) (k * gb 4) ∧
      n * (k * gb 4) ≤ span.size ∧ EngineInv k span s := by
  have hdvd : gb 4 ∣ boxFootprint t boxsize := dvd_add hbox hext
  obtain ⟨hchunk, r, hregions, htracks, hroom⟩ := lfiNew_spec hn hdvd hwrap hnew
  obtain ⟨k, hk⟩ := hdvd
  replace hk : boxFootprint t boxsize = k * gb 4 := hk.trans (Nat.mul_comm _ _)
  have hle := Nat.le_mul_of_pos_left (boxFootprint t boxsize) hn
  have hfpos : 0 < boxFootprint t boxsize := Nat.add_pos_left hpos _
  have hsize : ValidSize (gb 4) (k * gb 4) :=
    ⟨hk ▸ hfpos, Nat.dvd_mul_left _ _, by omega⟩
  have hres : Reserved map := (lfiNew_reserved (hk ▸ Nat.dvd_mul_left _ _) hwrap hnew).1
  refine ⟨k, r.space, hk, hsize, hk ▸ hroom, ?_⟩
  apply hrun.invariant
  · have hstart := hres.inv
    rw [hchunk, hregions] at hstart
    exact ⟨hstart, by simp⟩
  · rintro s op _ hs - ⟨hop, rfl⟩
    cases op with
    | new setup => exact hs.new hsize hk setup
    | free base => exact hs.free hk hop

/-- After any run of `lfi_box_new` and `lfi_box_free`, the engine has no space
for a box only when it has as many boxes as `lfi_new` was asked for. -/
theorem engine_has_promised_boxes {t : Target} {boxsize n : Nat} {h : Host} {map : BoxMap}
    {s : EngineState} (hext : gb 4 ∣ t.boxExternalGuard) (hbox : gb 4 ∣ boxsize)
    (hpos : 0 < boxsize) (hn : 0 < n)
    (hwrap : n * boxFootprint t boxsize + gb 4 + t.regionGuard * 2 < 2 ^ 64)
    (hnew : lfiNew t boxsize n h = some map)
    (hrun : Reaches (EngineStep t boxsize) anyStep ⟨map, []⟩ s)
    (hfull : (boxmapAddspace s.map (boxFootprint t boxsize)).1 = 0) : n ≤ s.boxes.length := by
  obtain ⟨k, span, hk, hsize, hroom, hinv⟩ :=
    engineInv_of_reaches hext hbox hpos hn hwrap hnew hrun
  exact hinv.le_length_of_full hsize (hk ▸ hfull) hroom

/-- Every box of the engine is at a positive multiple of 4 GiB. -/
theorem box_base_of_reaches (hext : gb 4 ∣ t.boxExternalGuard) (hbox : gb 4 ∣ boxsize)
    (hpos : 0 < boxsize) (hn : 0 < n)
    (hwrap : n * boxFootprint t boxsize + gb 4 + t.regionGuard * 2 < 2 ^ 64)
    (hnew : lfiNew t boxsize n h = some map)
    (hrun : Reaches (EngineStep t boxsize) anyStep ⟨map, []⟩ s) {b : Nat} (hb : b ∈ s.boxes) :
    0 < b ∧ gb 4 ∣ b := by
  obtain ⟨k, span, -, -, -, hinv⟩ := engineInv_of_reaches hext hbox hpos hn hwrap hnew hrun
  exact hinv.base_of_mem hb

end

/-- One box promised and one box live, in a reservation that does not begin at
a multiple of 4 GiB. -/
theorem engine_full_with_one_box :
    let h : Host := ⟨[some 0x7f0000001000], []⟩
    let s := (lfiNew x64 (gb 4) 1 h).map fun map =>
      applyEngine x64 (gb 4) ⟨map, []⟩ (.new true)
    ∃ u, s = some u ∧ 1 ≤ u.boxes.length := by
  intro h s
  have hnew : ∃ map, lfiNew x64 (gb 4) 1 h = some map := Option.isSome_iff_exists.mp (by decide)
  obtain ⟨map, hmap⟩ := hnew
  refine ⟨applyEngine x64 (gb 4) ⟨map, []⟩ (.new true), by simp only [s, hmap]; rfl, ?_⟩
  refine engine_has_promised_boxes (by decide) (by decide) (by decide) (by decide) (by decide) hmap
    ((Reaches.refl _).tail (l := .new true) trivial ⟨trivial, rfl⟩) ?_
  have hfull : (lfiNew x64 (gb 4) 1 h).map (fun map =>
      (boxmapAddspace (applyEngine x64 (gb 4) ⟨map, []⟩ (.new true)).map
        (boxFootprint x64 (gb 4))).1) = some 0 := by
    decide
  rw [hmap] at hfull
  exact Option.some.inj hfull

end LfiRuntime.Boxmap
