import LfiRuntime.Box.EngineRuns

/-!
The boxes of an engine are apart: no call on one box, and no code in it, reaches
the memory of another.
-/

namespace LfiRuntime.EngineRuns

open LfiRuntime.Box
open LfiRuntime.BoxNew
open LfiRuntime.Boxmap
open LfiRuntime.Config
open LfiRuntime.HostCalls
open LfiRuntime.PagedMemory
open LfiRuntime.Runs

/-- An address of the mappable range. -/
def Mappable (b : KeyedBox) (x : Nat) : Prop := b.box.min ≤ x ∧ x < b.box.max

/-- An address of the runtime-call page. -/
def SysPage (e : Engine) (b : KeyedBox) (x : Nat) : Prop :=
  b.box.base - e.opts.pagesize ≤ x ∧ x < b.box.base

/-- The targets whose boxes have a guard after them. -/
def guarded : List Target := [arm64, x64]

/-- Where the boxes are, and what the engine has reserved. -/
structure Separated (e : Engine) (s : World) : Prop where
  bases : s.bases.Nodup
  ranges : ∀ b ∈ s.boxes, ∀ c ∈ s.boxes, b.box.base ≠ c.box.base →
    ∀ x, Mappable b x → ¬Mappable c x
  /-- A box reaches a runtime-call page just when it ends where the box of that page begins,
  which no guarded box does. -/
  sysPages : ∀ b ∈ s.boxes, ∀ c ∈ s.boxes,
    (∃ x, Mappable b x ∧ SysPage e c x) ↔ b.box.max = c.box.base
  guards : e.target ∈ guarded → ∀ b ∈ s.boxes, ∀ c ∈ s.boxes, b.box.max ≠ c.box.base
  reserved : ∀ b ∈ s.boxes, ∀ x, Mappable b x → InReservation s.map x
  /-- The runtime-call page of a box at the very start of the reservation is before it. -/
  sysReserved : ∀ b ∈ s.boxes, ∀ r ∈ s.map.regions, e.opts.pagesize ∣ r.mapbase →
    ((∀ x, SysPage e b x → InReservation s.map x) ↔ r.mapbase ≠ b.box.base)
  sysGuards : e.target ∈ guarded → ∀ b ∈ s.boxes, ∀ r ∈ s.map.regions, r.mapbase ≠ b.box.base

section

variable {e : Engine} {rt : Runtime} {k n : Nat} {span res : Space} {s s' : World}
  {b c : KeyedBox}

/-- The guards of `core.h`, beside a page. -/
theorem guard_cases {t : Target} (ht : t ∈ all) :
    (t ∈ guarded ∧ kb 64 ≤ t.boxInternalGuard + t.boxExternalGuard ∧ mb 512 ≤ t.regionGuard ∨
      t ∉ guarded ∧ t.boxInternalGuard = 0 ∧ t.boxExternalGuard = 0 ∧ t.regionGuard = 0) ∧
    t.boxInternalGuard ≤ kb 192 := by
  revert t
  decide

namespace Layout

variable (h : Layout e k span res s)

include h

theorem footprint : e.opts.boxsize + e.target.boxExternalGuard = k * gb 4 := h.carved.footprint

theorem page_le : e.opts.pagesize ≤ kb 64 := Nat.le_of_dvd (by decide) h.carved.page

theorem boxsize_le : gb 4 ≤ e.opts.boxsize :=
  Nat.le_of_dvd h.carved.boxsize.2 h.carved.boxsize.1

theorem base_dvd (hb : b ∈ s.boxes) : gb 4 ≤ b.box.base ∧ gb 4 ∣ b.box.base := by
  obtain ⟨hpos, hdvd⟩ := h.engine.base_of_mem (List.mem_map_of_mem hb)
  exact ⟨Nat.le_of_dvd hpos hdvd, hdvd⟩

theorem apart (hb : b ∈ s.boxes) (hc : c ∈ s.boxes) (hne : b.box.base ≠ c.box.base) :
    b.box.base + k * gb 4 ≤ c.box.base ∨ c.box.base + k * gb 4 ≤ b.box.base := by
  have hmem : ∀ q ∈ s.boxes, (⟨q.box.base, k * gb 4⟩ : Space) ∈ spaces (k * gb 4) s.bases :=
    fun q hq => List.mem_map_of_mem (List.mem_map_of_mem hq)
  exact h.engine.inv.disjoint.forall (hmem b hb) (hmem c hc) fun heq => hne (Space.mk.inj heq).1

theorem bases_nodup : s.bases.Nodup := by
  have hdisjoint := h.engine.inv.disjoint
  have hpos := h.carved.valid.1
  rw [spaces, List.pairwise_map] at hdisjoint
  refine hdisjoint.imp fun {p q} hpq heq => ?_
  simp only [Space.Disjoint, heq] at hpq
  omega

theorem inside (hb : b ∈ s.boxes) :
    span.base ≤ b.box.base ∧ b.box.base + k * gb 4 ≤ span.base + span.size := by
  obtain ⟨r, hr, hlo, hhi⟩ := h.engine.inv.inside ⟨b.box.base, k * gb 4⟩
    (List.mem_map_of_mem (List.mem_map_of_mem hb))
  have hspan := h.engine.inv.spans_eq ▸ List.mem_map_of_mem (f := AddrRegion.space) hr
  obtain rfl := List.mem_singleton.mp hspan
  exact ⟨hlo, hhi⟩

/-- A guarded box has more room beside it than a page. -/
theorem guards (hguard : e.target ∈ guarded) :
    kb 64 ≤ e.target.boxInternalGuard + e.target.boxExternalGuard ∧
      kb 64 ≤ e.target.regionGuard := by
  rcases (guard_cases h.carved.target).1 with ⟨-, hboth, hregion⟩ | ⟨hnot, -⟩
  · exact ⟨hboth, le_trans (by decide) hregion⟩
  · exact absurd hguard hnot

/-- The mappable range lies in the space between the guards. -/
theorem bounds (hb : b ∈ s.boxes) :
    b.box.base + e.opts.pagesize ≤ b.box.min ∧
      b.box.max + e.target.boxInternalGuard = b.box.base + e.opts.boxsize ∧
      b.box.min < b.box.max := by
  obtain ⟨-, hmin, hmax, -⟩ := h.kept b hb
  have hguard := (guard_cases h.carved.target).2
  have hsize := h.boxsize_le
  have hpage := h.page_le
  have hroom : kb 192 + kb 192 < gb 4 := by decide
  have hsmall : kb 64 ≤ kb 192 := by decide
  omega

/-- The range of one box ends before the runtime-call page of the next, or where the next
begins. -/
theorem sysPage_above (hb : b ∈ s.boxes) {p : Nat} (hp : gb 4 ∣ p)
    (hlt : b.box.base + k * gb 4 ≤ p) :
    b.box.max + e.opts.pagesize ≤ p ∨ b.box.max = p ∧ e.target ∉ guarded := by
  have hfp := h.footprint
  have hpage := h.page_le
  have hchunk : kb 64 ≤ gb 4 := by decide
  obtain ⟨-, hmax, -⟩ := h.bounds hb
  rcases (guard_cases h.carved.target).1 with ⟨-, hguard, -⟩ | ⟨hnot, hin, hex, -⟩
  · exact .inl (by omega)
  · rcases Nat.eq_or_lt_of_le hlt with heq | hlt
    · exact .inr ⟨by omega, hnot⟩
    · -- both are at whole chunks
      have hdvd := dvd_add (h.base_dvd hb).2 h.carved.valid.2.1
      have hgap := Nat.le_of_dvd (Nat.sub_pos_of_lt hlt) (Nat.dvd_sub hp hdvd)
      exact .inl (by omega)

theorem inReservation_iff (x : Nat) :
    InReservation s.map x ↔ res.base ≤ x ∧ x < res.base + res.size := by
  obtain ⟨r, hr, hres⟩ := List.map_eq_singleton_iff.mp h.reserved
  rw [← hres]
  simp [InReservation, hr, reservation]

theorem mapbase_eq {r : AddrRegion} (hr : r ∈ s.map.regions) : r.mapbase = res.base := by
  have hmem := List.mem_map_of_mem (f := reservation) hr
  rw [h.reserved, List.mem_singleton] at hmem
  rw [← hmem]
  rfl

theorem separated : Separated e s := by
  have hpos := h.pos
  have hcarved := h.carved
  have hfp := h.footprint
  have hpage := h.page_le
  refine ⟨h.bases_nodup, ?_, ?_, ?_, ?_, ?_, ?_⟩
  · rintro b hb c hc hne x ⟨hlo, hhi⟩ ⟨hlo', hhi'⟩
    obtain ⟨hmin, hmax, -⟩ := h.bounds hb
    obtain ⟨hmin', hmax', -⟩ := h.bounds hc
    rcases h.apart hb hc hne with hlt | hlt <;> omega
  · intro b hb c hc
    obtain ⟨hmin, hmax, hlt⟩ := h.bounds hb
    constructor
    · rintro ⟨x, ⟨hlo, hhi⟩, hlo', hhi'⟩
      rcases h.apart hb hc (by omega) with hbelow | habove
      · rcases h.sysPage_above hb (h.base_dvd hc).2 hbelow with hle | ⟨heq, -⟩
        · omega
        · exact heq
      · omega
    · intro heq
      exact ⟨b.box.max - 1, ⟨by omega, by omega⟩, by omega, by omega⟩
  · intro hguard b hb c hc heq
    obtain ⟨hmin, hmax, hlt⟩ := h.bounds hb
    rcases h.apart hb hc (by omega) with hbelow | habove
    · rcases h.sysPage_above hb (h.base_dvd hc).2 hbelow with hle | ⟨-, hnot⟩
      · omega
      · exact hnot hguard
    · omega
  · rintro b hb x ⟨hlo, hhi⟩
    obtain ⟨hmin, hmax, -⟩ := h.bounds hb
    obtain ⟨hlow, hhigh⟩ := h.inside hb
    have := hcarved.lo
    have := hcarved.hi
    exact (h.inReservation_iff x).mpr ⟨by omega, by omega⟩
  · intro b hb r hr hdvd
    obtain ⟨hlow, hhigh⟩ := h.inside hb
    obtain ⟨hge, hbase⟩ := h.base_dvd hb
    have hlo := hcarved.lo
    have hhi := hcarved.hi
    have hchunk : 0 < gb 4 := by decide
    rw [h.mapbase_eq hr] at hdvd ⊢
    constructor
    · intro hall heq
      have hbefore := (h.inReservation_iff _).mp (hall (b.box.base - 1) ⟨by omega, by omega⟩)
      omega
    · rintro hne x ⟨hlo', hhi'⟩
      have hdvd' : e.opts.pagesize ∣ b.box.base - res.base :=
        Nat.dvd_sub ((hcarved.page.trans (by decide)).trans hbase) hdvd
      have hgap := Nat.le_of_dvd (by omega) hdvd'
      exact (h.inReservation_iff x).mpr ⟨by omega, by omega⟩
  · intro hguard b hb r hr heq
    obtain ⟨hlow, -⟩ := h.inside hb
    have hlo := hcarved.lo
    rw [h.mapbase_eq hr] at heq
    have hregion := (h.guards hguard).2
    have : 0 < kb 64 := by decide
    omega

end Layout

/-- In every state of an engine the boxes are apart. -/
theorem boxes_separated {s₀ : World} (hstart : Fresh e n s₀)
    (hrun : Reaches (Step e rt) anyStep s₀ s) : Separated e s := by
  obtain ⟨k, span, res, h⟩ := layout_of_reaches hstart hrun
  exact h.separated

end

/-! What an act changes. -/

/-- The page of the address is as before, and so are its contents unless a file shows there. -/
def Same (e : Engine) (s s' : World) (x : Nat) : Prop :=
  s'.mem.pages (x / e.opts.pagesize) = s.mem.pages (x / e.opts.pagesize) ∧
    (s.mem.cell e.opts.pagesize x = .own x → s'.shows e x = s.shows e x)

/-- The box that an act is by. -/
def Act.actor : Act → Option Nat
  | .new _ | .process _ _ => none
  | .free b _ | .request b _ _ _ | .store b _ _ | .callbacks b _ _ _ => some b.box.base

/-- Where an act may change memory of the engine. -/
def Touched (e : Engine) (s : World) (x : Nat) : Act → Prop
  | .new _ => s.nextBase e ≠ 0 ∧ s.nextBase e - e.opts.pagesize ≤ x ∧ x < s.nextBase e
  | .free b _ => b.box.base - e.opts.pagesize ≤ x ∧ x < b.box.base + b.box.size
  | .request b _ _ _ | .store b _ _ | .callbacks b _ _ _ => Mappable b x
  | .process _ _ => False

/-- The runtime-call page before `base` is as `lfi_box_new` makes it. -/
def Intact (e : Engine) (rt : Runtime) (s : World) (base : Nat) : Prop :=
  ∀ x, base - e.opts.pagesize ≤ x → x < base →
    s.shows e x = some (⟨Prot.readOnly, .priv⟩, 0, sysByte rt base x, .own x)

section

variable {e : Engine} {rt : Runtime} {k n : Nat} {span res : Space} {s s' : World}
  {b c : KeyedBox} {a : BoxNew.Answers} {act : Act} {x : Nat}

theorem same_of_shows (hshows : s'.shows e x = s.shows e x) : Same e s s' x := by
  refine ⟨?_, fun _ => hshows⟩
  have hpages := congrArg (Option.map Prod.fst) hshows
  simpa [World.shows, Option.map_map, Function.comp_def] using hpages

/-- Memory of one's own that is the same shows the same. -/
theorem Same.shows {pg : Page} {key : Nat} {byte : UInt8} (hs : Same e s s' x)
    (hshows : s.shows e x = some (pg, key, byte, .own x)) :
    s'.shows e x = some (pg, key, byte, .own x) := by
  obtain ⟨pg', -, heq⟩ := Option.map_eq_some_iff.mp hshows
  simp only [Prod.mk.injEq] at heq
  rw [hs.2 heq.2.2.2, hshows]

theorem same_of_confined {start len : Nat} {m : Memory} {keyOf : Nat → Nat}
    (hc : Confined e.opts.pagesize start len s.mem m)
    (hkey : ∀ p, ¬InSpan e.opts.pagesize start len p → keyOf p = s.keyOf p)
    (hx : ¬InSpan e.opts.pagesize start len (x / e.opts.pagesize))
    (hmem : s'.mem = m) (hkeys : s'.keyOf = keyOf) : Same e s s' x := by
  subst hmem hkeys
  refine ⟨hc.pages _ hx, fun hown => ?_⟩
  obtain ⟨hown', hread⟩ := hc.own x hx hown
  rw [World.shows, World.shows, hc.pages _ hx, hread, hown', hown, hkey _ hx]

/-- A store by code in the box. -/
theorem same_store {addr : Nat} {byte : UInt8} (hx : x ≠ addr) :
    Same e s { s with mem := s.mem.store e.opts.pagesize addr byte } x := by
  have hpages : (s.mem.store e.opts.pagesize addr byte).pages = s.mem.pages :=
    Memory.pages_store addr byte
  refine ⟨congrFun hpages _, fun hown => ?_⟩
  simp only [World.shows, hpages, Memory.read_store_of_own hx hown, Memory.cell_store_own hown, hown]

theorem pku_of_guarded (hguard : e.target ∈ guarded) : e.target.pku = false := by
  revert hguard
  generalize e.target = t
  revert t
  decide

theorem keyed_shows {s₁ : World} {pkey base : Nat} (hguard : e.target ∈ guarded)
    (hkeyed : Keyed e a s base pkey s₁) (x : Nat) : s₁.shows e x = s.shows e x := by
  rw [hkeyed.shows, if_neg (by simp [pku_of_guarded hguard])]

variable (rt a x) in
/-- `lfi_box_new` changes the page before the new space at most. -/
theorem shows_new {live : List Space} (h : Sane e live s) (hguard : e.target ∈ guarded)
    (hx : ¬(s.nextBase e ≠ 0 ∧ s.nextBase e - e.opts.pagesize ≤ x ∧ x < s.nextBase e)) :
    (s.lfiBoxNew e rt a).2.shows e x = s.shows e x := by
  have hout : ¬EndsEarly e s a →
      ¬(s.nextBase e - e.opts.pagesize ≤ x ∧ x < s.nextBase e) := by
    intro hlate hin
    exact hx ⟨fun hzero => hlate (.inr (.inl hzero)), hin⟩
  rcases hnew : s.lfiBoxNew e rt a with ⟨_ | b, s'⟩
  · rcases lfiBoxNew_none h hnew with
      ⟨-, -, -, -, hshows⟩ | ⟨hlate, -, -, -, hkeyed, hshows⟩
    · exact congrFun hshows x
    · have hafter := hshows x
      rw [if_neg fun hin => hout hlate hin.2] at hafter
      exact hafter.trans (keyed_shows hguard hkeyed x)
  · have hmade := lfiBoxNew_some h hnew
    obtain ⟨-, s₁, hkeyed, hshows⟩ := lfiBoxNew_shown h hnew
    have hafter := hshows x
    rw [if_neg fun hin => hx ⟨hmade.ne, hin⟩] at hafter
    exact hafter.trans (keyed_shows hguard hkeyed x)

namespace Layout

variable (h : Layout e k span res s)

include h

theorem inRange_iff (hb : b ∈ s.boxes) (x : Nat) :
    InRange e b (x / e.opts.pagesize) ↔ Mappable b x := by
  obtain ⟨r, hw⟩ := (h.kept b hb).works
  exact inSpan_range_iff hw x

theorem page_dvd : e.opts.pagesize ∣ gb 4 := h.carved.page.trans (by decide)

theorem shows_free (hb : b ∈ s.boxes) {len : Nat} (htable : ∀ table ∈ b.table,
      ∀ x, InSpan e.opts.pagesize table len (x / e.opts.pagesize) → ¬InReservation s.map x)
    (hx : InReservation s.map x) : (s.lfiBoxFree e b len).shows e x =
      if b.box.base - e.opts.pagesize ≤ x ∧ x < b.box.base + b.box.size then
        some (⟨Prot.none, .priv⟩, 0, 0, .own x)
      else s.shows e x := by
  obtain ⟨hge, hdvd⟩ := h.base_dvd hb
  have hpage := h.page_le
  have hchunk : kb 64 ≤ gb 4 := by decide
  have hsize : e.opts.pagesize ∣ b.box.size := by
    rw [(h.kept b hb).size]
    exact h.page_dvd.trans h.carved.boxsize.1
  have hbase := h.page_dvd.trans hdvd
  have hspan : InSpan e.opts.pagesize (b.box.base - e.opts.pagesize)
      (b.box.size + e.opts.pagesize) (x / e.opts.pagesize) ↔
        b.box.base - e.opts.pagesize ≤ x ∧ x < b.box.base + b.box.size := by
    rw [inSpan_iff h.pos (Nat.dvd_sub hbase (dvd_refl _)) (dvd_add hsize (dvd_refl _))]
    omega
  have hanon : (s.mmapAnon e (b.box.base - e.opts.pagesize) (b.box.size + e.opts.pagesize)
      Prot.none).shows e x = _ := shows_mmapAnon x
  simp only [hspan] at hanon
  rw [← hanon]
  have hkeys : ∀ u : World, (if b.pkey = 0 then u else u.pkeyFree e b.pkey).shows e x =
      u.shows e x := by
    intro u
    unfold World.pkeyFree
    split_ifs <;> rfl
  unfold World.lfiBoxFree
  simp only
  rw [hkeys]
  cases htab : b.table with
  | none => rfl
  | some table =>
      have hmunmap : ((s.mmapAnon e (b.box.base - e.opts.pagesize) (b.box.size + e.opts.pagesize)
          Prot.none).munmap e table len).shows e x = _ := shows_munmap x
      rw [if_neg fun hin => htable table htab x hin hx] at hmunmap
      exact hmunmap

/-- Nothing of the engine's memory changes but where the act is. -/
theorem same_step (hguard : e.target ∈ guarded) (hstep : Step e rt s act s')
    (hx : InReservation s.map x) (hout : ¬Touched e s x act) : Same e s s' x := by
  cases act with
  | new a =>
      obtain rfl := hstep
      exact same_of_shows (shows_new rt a x h.sane hguard hout)
  | free b len =>
      obtain ⟨hb, rfl, htable⟩ := hstep
      exact same_of_shows ((h.shows_free hb htable hx).trans (if_neg hout))
  | request b c outcomes keyOf =>
      obtain ⟨hb, rfl, hkey⟩ := hstep
      obtain ⟨r, hw⟩ := (h.kept b hb).works
      have hroom : 11 ≤ e.opts.pagesize := le_trans (by decide) h.carved.room
      have hserved := serve_served hw hroom ⟨s.mem, outcomes, []⟩ c
      exact same_of_confined hserved.confined hkey (fun hin => hout ((h.inRange_iff hb x).mp hin))
        rfl rfl
  | store b addr byte =>
      obtain ⟨-, hlo, hhi, rfl⟩ := hstep
      apply same_store
      rintro rfl
      exact hout ⟨hlo, hhi⟩
  | callbacks b b' mem keyOf =>
      obtain ⟨hb, hwork, rfl⟩ := hstep
      obtain ⟨hpages, hshows⟩ := hwork.shows x hx fun hin => hout ((h.inRange_iff hb x).mp hin)
      exact ⟨hpages, hshows⟩
  | process mem keyOf =>
      obtain ⟨hsame, rfl⟩ := hstep
      exact hsame x hx

/-- A new space is apart from those of the boxes. -/
theorem apart_nextBase (hc : c ∈ s.boxes) (hne : s.nextBase e ≠ 0) :
    gb 4 ∣ s.nextBase e ∧ (s.nextBase e + k * gb 4 ≤ c.box.base ∨
      c.box.base + k * gb 4 ≤ s.nextBase e) := by
  have hadd := h.engine.inv.addspace (List.pairwise_singleton _ _) h.carved.valid
  have hbase := h.engine.inv.addspace_base (List.pairwise_singleton _ _) h.carved.valid
  rw [World.nextBase, h.carved.footprint] at hne ⊢
  simp only [Boxmap.apply] at hadd
  rw [if_neg hne] at hadd
  obtain ⟨hnew, -⟩ := List.pairwise_cons.mp hadd.disjoint
  exact ⟨(hbase hne).1, hnew _ (List.mem_map_of_mem (List.mem_map_of_mem hc))⟩

/-- An act of another box is not in the range of this one. -/
theorem not_touched_range (hguard : e.target ∈ guarded) (hstep : Step e rt s act s')
    (hc : c ∈ s.boxes) (hother : act.actor ≠ some c.box.base) (hx : Mappable c x) :
    ¬Touched e s x act := by
  obtain ⟨hlo, hhi⟩ := hx
  obtain ⟨hmin, hmax, -⟩ := h.bounds hc
  have hranges := h.separated.ranges
  cases act with
  | new a =>
      rintro ⟨hne, hlo', hhi'⟩
      obtain ⟨hdvd, hbelow | habove⟩ := h.apart_nextBase hc hne
      · omega
      · rcases h.sysPage_above hc hdvd habove with hle | ⟨-, hnot⟩
        · omega
        · exact hnot hguard
  | free b len =>
      rintro ⟨hlo', hhi'⟩
      obtain ⟨hb, -⟩ := hstep
      have hne : b.box.base ≠ c.box.base := fun heq => hother (congrArg some heq)
      have hfp := h.footprint
      have hsize := (h.kept b hb).size
      rcases h.apart hb hc hne with hbelow | habove
      · omega
      · rcases h.sysPage_above hc (h.base_dvd hb).2 habove with hle | ⟨-, hnot⟩
        · omega
        · exact hnot hguard
  | request b c' outcomes keyOf =>
      exact fun hin => hranges b hstep.1 c hc (fun heq => hother (congrArg some heq)) x hin
        ⟨hlo, hhi⟩
  | store b addr byte =>
      exact fun hin => hranges b hstep.1 c hc (fun heq => hother (congrArg some heq)) x hin
        ⟨hlo, hhi⟩
  | callbacks b b' mem keyOf =>
      exact fun hin => hranges b hstep.1 c hc (fun heq => hother (congrArg some heq)) x hin
        ⟨hlo, hhi⟩
  | process mem keyOf => exact id

/-- No act is in the runtime-call page of a box, but for the end of that box and of one
that is directly below it. -/
theorem not_touched_sysPage (hguard : e.target ∈ guarded) (hstep : Step e rt s act s')
    (hc : c ∈ s.boxes)
    (hfree : ∀ b len, act = .free b len →
      b.box.base ≠ c.box.base ∧ b.box.base + b.box.size ≠ c.box.base)
    (hx : SysPage e c x) : ¬Touched e s x act := by
  obtain ⟨hlo, hhi⟩ := hx
  have hpage := h.page_le
  have hsize := h.boxsize_le
  have hfp := h.footprint
  have hchunk : kb 64 ≤ gb 4 := by decide
  have hranges : ∀ b ∈ s.boxes, ¬Mappable b x := by
    intro b hb hin
    exact h.separated.guards hguard b hb c hc
      ((h.separated.sysPages b hb c hc).mp ⟨x, hin, hlo, hhi⟩)
  cases act with
  | new a =>
      rintro ⟨hne, hlo', hhi'⟩
      obtain ⟨-, hbelow | habove⟩ := h.apart_nextBase hc hne <;> omega
  | free b len =>
      rintro ⟨hlo', hhi'⟩
      obtain ⟨hb, -⟩ := hstep
      obtain ⟨hne, hnext⟩ := hfree b len rfl
      have hbsize := (h.kept b hb).size
      rcases h.apart hb hc hne with hbelow | habove
      · -- there are whole chunks between the two
        have hdvd := dvd_add (h.base_dvd hb).2 h.carved.boxsize.1
        have hgap := Nat.le_of_dvd (Nat.sub_pos_of_lt (by omega : b.box.base + e.opts.boxsize <
          c.box.base)) (Nat.dvd_sub (h.base_dvd hc).2 hdvd)
        omega
      · omega
  | request b c' outcomes keyOf => exact hranges b hstep.1
  | store b addr byte => exact hranges b hstep.1
  | callbacks b b' mem keyOf => exact hranges b hstep.1
  | process mem keyOf => exact id

theorem sysPage_reserved (hguard : e.target ∈ guarded) (hc : c ∈ s.boxes) (hx : SysPage e c x) :
    InReservation s.map x := by
  have hpage := h.page_le
  obtain ⟨hlow, hhigh⟩ := h.inside hc
  have hlo := h.carved.lo
  have hhi := h.carved.hi
  have hregion := (h.guards hguard).2
  obtain ⟨hlo', hhi'⟩ := hx
  exact (h.inReservation_iff x).mpr ⟨by omega, by omega⟩

theorem intact_step_iff (hguard : e.target ∈ guarded) (hstep : Step e rt s act s')
    (hc : c ∈ s.boxes) (hintact : Intact e rt s c.box.base) :
    Intact e rt s' c.box.base ↔ ∀ b len, act = .free b len →
      b.box.base ≠ c.box.base ∧ b.box.base + b.box.size ≠ c.box.base := by
  have hpos := h.pos
  have hge := (h.base_dvd hc).1
  have hchunk : 0 < gb 4 := by decide
  constructor
  · rintro hafter b len rfl
    obtain ⟨hb, rfl, htable⟩ := hstep
    have hlast := hafter (c.box.base - 1) (by omega) (by omega)
    have hin : InReservation s.map (c.box.base - 1) :=
      h.sysPage_reserved hguard hc ⟨by omega, by omega⟩
    rw [h.shows_free hb htable hin] at hlast
    refine ⟨fun heq => ?_, fun heq => ?_⟩
    · rw [if_pos (by omega)] at hlast
      cases hlast
    · have hsize := (h.kept b hb).size
      have := h.boxsize_le
      rw [if_pos (by omega)] at hlast
      cases hlast
  · intro hfree x hlo hhi
    have hx : SysPage e c x := ⟨hlo, hhi⟩
    have hsame := h.same_step hguard hstep (h.sysPage_reserved hguard hc hx)
      (h.not_touched_sysPage hguard hstep hc hfree hx)
    exact hsame.shows (hintact x hlo hhi)

end Layout

/-- No act, on a box or in it, changes the mappable range of another box, and just the end
of the box itself or of one that ends where it begins destroys its runtime-call page. -/
theorem acts_spare_others {s₀ : World} (hstart : Fresh e n s₀) (hguard : e.target ∈ guarded)
    (hrun : Reaches (Step e rt) anyStep s₀ s) (hstep : Step e rt s act s') (hc : c ∈ s.boxes) :
    (act.actor ≠ some c.box.base → ∀ x, Mappable c x → Same e s s' x) ∧
      (Intact e rt s c.box.base → (Intact e rt s' c.box.base ↔ ∀ b len, act = .free b len →
        b.box.base ≠ c.box.base ∧ b.box.base + b.box.size ≠ c.box.base)) := by
  obtain ⟨k, span, res, h⟩ := layout_of_reaches hstart hrun
  refine ⟨fun hother x hx => ?_, h.intact_step_iff hguard hstep hc⟩
  exact h.same_step hguard hstep (h.separated.reserved c hc x hx)
    (h.not_touched_range hguard hstep hc hother hx)

/-! The runtime-call pages in runs. -/

theorem pku_ite (hguard : e.target ∈ guarded) (key : Nat) :
    (if e.target.pku then key else 0) = 0 := by
  rw [pku_of_guarded hguard]
  rfl

variable (rt a) in
theorem bases_of_lfiBoxNew {live : List Space} (h : Sane e live s) :
    (s.lfiBoxNew e rt a).2.bases = s.bases ∨
      ∃ b, s.lfiBoxNew e rt a = (some b, (s.lfiBoxNew e rt a).2) ∧
        (s.lfiBoxNew e rt a).2.bases = s.nextBase e :: s.bases := by
  rcases hnew : s.lfiBoxNew e rt a with ⟨_ | b, s'⟩
  · left
    rcases lfiBoxNew_none h hnew with ⟨-, -, -, hboxes, -⟩ | ⟨-, -, -, hboxes, -, -⟩ <;>
      rw [World.bases, World.bases, hboxes]
  · exact .inr ⟨b, rfl, (lfiBoxNew_some h hnew).bases⟩

/-- The boxes after a step, other than a new one, are boxes from before. -/
theorem Layout.bases_step (h : Layout e k span res s) (hstep : Step e rt s act s') {p : Nat}
    (hp : p ∈ s'.bases) : p ∈ s.bases ∧ (∀ b len, act = .free b len → b.box.base ≠ p) ∨
      ∃ a b, act = .new a ∧ s.lfiBoxNew e rt a = (some b, s') ∧ p = s.nextBase e := by
  cases act with
  | new a =>
      obtain rfl := hstep
      rcases bases_of_lfiBoxNew rt a h.sane with heq | ⟨b, hnew, heq⟩
      · exact .inl ⟨heq ▸ hp, by simp⟩
      · rw [heq] at hp
        rcases List.mem_cons.mp hp with rfl | hp
        · exact .inr ⟨a, b, rfl, hnew, rfl⟩
        · exact .inl ⟨hp, by simp⟩
  | free b len =>
      obtain ⟨-, rfl, -⟩ := hstep
      rw [(lfiBoxFree_rest e s b len).2] at hp
      obtain ⟨hne, hmem⟩ := h.bases_nodup.mem_erase_iff.mp hp
      refine .inl ⟨hmem, fun b' len' heq => ?_⟩
      obtain ⟨rfl, -⟩ := Act.free.inj heq
      exact hne.symm
  | request b c outcomes keyOf =>
      obtain ⟨-, rfl, -⟩ := hstep
      exact .inl ⟨bases_put s _ ▸ hp, by simp⟩
  | store b addr byte =>
      obtain ⟨-, -, -, rfl⟩ := hstep
      exact .inl ⟨hp, by simp⟩
  | callbacks b b' mem keyOf =>
      obtain ⟨-, -, rfl⟩ := hstep
      exact .inl ⟨bases_put s _ ▸ hp, by simp⟩
  | process mem keyOf =>
      obtain ⟨-, rfl⟩ := hstep
      exact .inl ⟨hp, by simp⟩

/-- A box stays until it is freed. -/
theorem Layout.mem_bases_step (h : Layout e k span res s) (hstep : Step e rt s act s') {p : Nat}
    (hp : p ∈ s.bases) : p ∈ s'.bases ∨ ∃ b len, act = .free b len ∧ b.box.base = p := by
  cases act with
  | new a =>
      obtain rfl := hstep
      rcases bases_of_lfiBoxNew rt a h.sane with heq | ⟨b, -, heq⟩
      · exact .inl (heq ▸ hp)
      · rw [heq]
        exact .inl (List.mem_cons_of_mem _ hp)
  | free b len =>
      obtain ⟨-, rfl, -⟩ := hstep
      rw [(lfiBoxFree_rest e s b len).2, h.bases_nodup.mem_erase_iff]
      rcases eq_or_ne p b.box.base with heq | hne
      · exact .inr ⟨b, len, rfl, heq.symm⟩
      · exact .inl ⟨hne, hp⟩
  | request b c outcomes keyOf =>
      obtain ⟨-, rfl, -⟩ := hstep
      left
      change p ∈ (EngineRuns.put s _).bases
      rwa [bases_put]
  | store b addr byte =>
      obtain ⟨-, -, -, rfl⟩ := hstep
      exact .inl hp
  | callbacks b b' mem keyOf =>
      obtain ⟨-, -, rfl⟩ := hstep
      left
      change p ∈ (EngineRuns.put s b').bases
      rwa [bases_put]
  | process mem keyOf =>
      obtain ⟨-, rfl⟩ := hstep
      exact .inl hp

variable (e) in
/-- No box is freed that ends where a live one begins. On x86-64 none does. -/
def SparesAbove (s : World) (act : Act) : Prop :=
  e.target = x64 ∨ ∀ b len, act = .free b len → b.box.base + b.box.size ∉ s.bases

theorem Layout.intact_step (h : Layout e k span res s) (hguard : e.target ∈ guarded)
    (hintact : ∀ p ∈ s.bases, Intact e rt s p) (hok : SparesAbove e s act)
    (hstep : Step e rt s act s') : ∀ p ∈ s'.bases, Intact e rt s' p := by
  intro p hp
  rcases h.bases_step hstep hp with ⟨hmem, hfree⟩ | ⟨a, b, rfl, hnew, rfl⟩
  · obtain ⟨c, hc, rfl⟩ := List.mem_map.mp hmem
    refine (h.intact_step_iff hguard hstep hc (hintact _ hmem)).mpr fun b len hact => ?_
    refine ⟨hfree b len hact, fun heq => ?_⟩
    rcases hok with hx64 | hok
    · subst hact
      obtain ⟨hb, -⟩ := hstep
      have hsize := (h.kept b hb).size
      have hfp := h.footprint
      have hchunk := h.boxsize_le
      have hguard4 : e.target.boxExternalGuard = gb 4 := by rw [hx64]; rfl
      have hpos : 0 < gb 4 := by decide
      rcases h.apart hb hc (hfree b len rfl) with hbelow | habove <;> omega
    · exact hok b len hact (heq ▸ hmem)
  · intro x hlo hhi
    obtain ⟨-, s₁, -, hshows⟩ := lfiBoxNew_shown h.sane hnew
    rw [hshows, if_pos ⟨hlo, hhi⟩, pku_ite hguard]

theorem layout_intact_of_reaches {s₀ : World} (hstart : Fresh e n s₀) (hguard : e.target ∈ guarded)
    (hrun : Reaches (Step e rt) (SparesAbove e) s₀ s) :
    ∃ k span res, Layout e k span res s ∧ ∀ p ∈ s.bases, Intact e rt s p := by
  obtain ⟨k, span, res, h⟩ := hstart.layout
  have hnone : ∀ p ∈ s₀.bases, Intact e rt s₀ p := by
    simp [World.bases, hstart.start.boxes]
  refine ⟨k, span, res, ?_⟩
  apply hrun.invariant ⟨h, hnone⟩
  intro _ _ _ hinv hok hstep
  exact ⟨hinv.1.step hstep, hinv.1.intact_step hguard hinv.2 hok hstep⟩

/-- As long as no box is freed directly below a live one, the runtime-call page of every
live box is what `lfi_box_new` has made it. -/
theorem runtime_pages_intact {s₀ : World} (hstart : Fresh e n s₀) (hguard : e.target ∈ guarded)
    (hrun : Reaches (Step e rt) (SparesAbove e) s₀ s) : ∀ p ∈ s.bases, Intact e rt s p := by
  obtain ⟨k, span, res, -, hintact⟩ := layout_intact_of_reaches hstart hguard hrun
  exact hintact

/-! New boxes. -/

/-- The places where a box can be. -/
def slot (k : Nat) (span : Space) (q : Nat) : Nat := span.base + q * k * gb 4

/-- What would be the mappable range of a box there is inaccessible, and empty. -/
def Blank (e : Engine) (s : World) (p : Nat) : Prop :=
  ∀ x, p + e.opts.pagesize ≤ x → p + e.target.boxInternalGuard ≤ x →
    x + e.target.boxInternalGuard < p + e.opts.boxsize →
      s.shows e x = some (⟨Prot.none, .priv⟩, 0, 0, .own x)

theorem slots_apart {q q' : Nat} (hne : slot k span q ≠ slot k span q') :
    slot k span q + k * gb 4 ≤ slot k span q' ∨ slot k span q' + k * gb 4 ≤ slot k span q := by
  have hsucc : ∀ i j, i < j → slot k span i + k * gb 4 ≤ slot k span j := by
    intro i j hij
    have hmul := Nat.mul_le_mul_right (k * gb 4) (Nat.succ_le_of_lt hij)
    rw [Nat.succ_mul] at hmul
    simp only [slot, Nat.mul_assoc]
    omega
  rcases Nat.lt_trichotomy q q' with hlt | rfl | hlt
  · exact .inl (hsucc q q' hlt)
  · exact absurd rfl hne
  · exact .inr (hsucc q' q hlt)

namespace Layout

variable (h : Layout e k span res s)

include h

/-- The range of one place is clear of any other, with the page before it. -/
theorem slot_clear (hguard : e.target ∈ guarded) {q q' : Nat}
    (hne : slot k span q ≠ slot k span q') (hlo : slot k span q + e.opts.pagesize ≤ x)
    (hhi : x + e.target.boxInternalGuard < slot k span q + e.opts.boxsize) :
    ¬(slot k span q' - e.opts.pagesize ≤ x ∧ x < slot k span q' + e.opts.boxsize) := by
  have hfp := h.footprint
  have hpage := h.page_le
  have hsmall := (h.guards hguard).1
  rcases slots_apart hne with hbelow | habove <;> omega

theorem not_touched_slot (hguard : e.target ∈ guarded) (hstep : Step e rt s act s') {q : Nat}
    (hfree : slot k span q ∉ s.bases) (hlo : slot k span q + e.opts.pagesize ≤ x)
    (hhi : x + e.target.boxInternalGuard < slot k span q + e.opts.boxsize) :
    ¬Touched e s x act := by
  have hbox : ∀ b ∈ s.boxes,
      ¬(b.box.base - e.opts.pagesize ≤ x ∧ x < b.box.base + e.opts.boxsize) := by
    intro b hb
    have hmem : b.box.base ∈ s.bases := List.mem_map_of_mem hb
    obtain ⟨q', hq'⟩ := h.engine.placed _ hmem
    change b.box.base = slot k span q' at hq'
    rw [hq'] at hmem ⊢
    exact h.slot_clear hguard (fun heq => hfree (by rwa [heq])) hlo hhi
  have hrange : ∀ b ∈ s.boxes, ¬Mappable b x := by
    rintro b hb ⟨hmin, hmax⟩
    obtain ⟨hmin', hmax', -⟩ := h.bounds hb
    exact hbox b hb ⟨by omega, by omega⟩
  cases act with
  | new a =>
      rintro ⟨hne, hlo', hhi'⟩
      obtain ⟨q', hq'⟩ := h.placed_nextBase hne
      change s.nextBase e = slot k span q' at hq'
      rw [hq'] at hlo' hhi'
      rcases eq_or_ne (slot k span q) (slot k span q') with heq | hne'
      · omega
      · exact h.slot_clear hguard hne' hlo hhi ⟨hlo', by omega⟩
  | free b len =>
      rintro ⟨hlo', hhi'⟩
      rw [(h.kept b hstep.1).size] at hhi'
      exact hbox b hstep.1 ⟨hlo', hhi'⟩
  | request b c outcomes keyOf => exact hrange b hstep.1
  | store b addr byte => exact hrange b hstep.1
  | callbacks b b' mem keyOf => exact hrange b hstep.1
  | process mem keyOf => exact id

/-- A place in the region is reserved. -/
theorem slot_reserved {q : Nat} (hin : slot k span q + k * gb 4 ≤ span.base + span.size)
    (hlo : slot k span q ≤ x) (hhi : x < slot k span q + e.opts.boxsize) :
    InReservation s.map x := by
  have hfp := h.footprint
  have hres := h.carved.lo
  have hres' := h.carved.hi
  have hbase : span.base ≤ slot k span q := Nat.le_add_right _ _
  exact (h.inReservation_iff x).mpr ⟨by omega, by omega⟩

/-- A free place stays blank, and a box leaves its place blank. -/
theorem blank_step (hguard : e.target ∈ guarded)
    (hblank : ∀ q, slot k span q + k * gb 4 ≤ span.base + span.size → slot k span q ∉ s.bases →
      Blank e s (slot k span q)) (hstep : Step e rt s act s') :
    ∀ q, slot k span q + k * gb 4 ≤ span.base + span.size → slot k span q ∉ s'.bases →
      Blank e s' (slot k span q) := by
  intro q hin hfree x hlo hguardlo hhi
  have hx : InReservation s.map x := h.slot_reserved hin (by omega) (by omega)
  by_cases hmem : slot k span q ∈ s.bases
  · -- the box there has been freed
    obtain ⟨b, len, rfl, hbase⟩ := (h.mem_bases_step hstep hmem).resolve_left hfree
    obtain ⟨hb, rfl, htable⟩ := hstep
    have hsize := (h.kept b hb).size
    rw [h.shows_free hb htable hx, if_pos (by omega)]
  · have hsame := h.same_step hguard hstep hx (h.not_touched_slot hguard hstep hmem hlo hhi)
    exact hsame.shows (hblank q hin hmem x hlo hguardlo hhi)

end Layout

/-- A new box is clean: every address of its mappable range is inaccessible and shows
nothing, whatever boxes have been there before and whatever calls have failed, and its mapper
has no mappings. -/
theorem new_box_clean {s₀ : World} (hstart : Fresh e n s₀) (hguard : e.target ∈ guarded)
    (hrun : Reaches (Step e rt) anyStep s₀ s) (hnew : s.lfiBoxNew e rt a = (some b, s')) :
    ∀ x, Mappable b x →
      s'.shows e x = some (⟨Prot.none, .priv⟩, 0, 0, .own x) ∧ lfiBoxMquery b.box x = none := by
  obtain ⟨k, span, res, h⟩ := hstart.layout
  have hempty : ∀ q, slot k span q + k * gb 4 ≤ span.base + span.size →
      slot k span q ∉ s₀.bases → Blank e s₀ (slot k span q) := by
    intro q hin _ x hlo _ hhi
    exact hstart.blank x (h.slot_reserved hin (by omega) (by omega))
  obtain ⟨h, hblank⟩ : Layout e k span res s ∧
      ∀ q, slot k span q + k * gb 4 ≤ span.base + span.size → slot k span q ∉ s.bases →
        Blank e s (slot k span q) := by
    apply hrun.invariant
    · exact ⟨h, hempty⟩
    · rintro s act s' ⟨hl, hfree⟩ - hstep
      exact ⟨hl.step hstep, hl.blank_step hguard hfree hstep⟩
  rintro x ⟨hlo, hhi⟩
  have hmade := lfiBoxNew_some h.sane hnew
  have hbox := (lfiBoxNew_shown h.sane hnew).box
  have hafter : Layout e k span res s' := by
    have hstep := h.new rt a
    rwa [hnew] at hstep
  have hb : b ∈ s'.boxes := by
    rw [hmade.boxes]
    exact List.mem_cons_self
  obtain ⟨hmin, hmax, -⟩ := hafter.bounds hb
  have hkept := (hafter.kept b hb).min
  constructor
  · have hnodup := hafter.bases_nodup
    rw [hmade.bases] at hnodup
    obtain ⟨hfree, -⟩ := List.nodup_cons.mp hnodup
    obtain ⟨-, hin⟩ := hafter.inside hb
    obtain ⟨q, hq⟩ := h.placed_nextBase hmade.ne
    change s.nextBase e = slot k span q at hq
    rw [hmade.base, hq] at hmin hmax hkept hin
    rw [hq] at hfree
    have hsame := shows_new rt a x h.sane hguard (by omega)
    rw [hnew] at hsame
    rw [hsame]
    exact hblank q hin hfree x (by omega) (by omega) (by omega)
  · obtain ⟨r, hregion, himpl, htable⟩ := boxRegion_new (h.placed hmade.ne) hbox
    rw [hregion.mquery_eq himpl, htable]
    rfl

end

/-! Two boxes, one directly above the other. -/

def twoEngine (t : Target) : Engine := ⟨t, ⟨4096, gb 4, true, false, true⟩, fun _ _ => true⟩

def twoHost : Boxmap.Host := ⟨[some 0x7f0000001000], []⟩

/-- An engine for two boxes, before its first. -/
def twoWorld (t : Target) : World where
  map := (lfiNew t (gb 4) 2 twoHost).getD (boxmapNew ⟨gb 4, gb 4⟩)
  boxes := []
  keys := ∅
  mem :=
    { pages := fun _ => some ⟨Prot.none, .priv⟩
      priv := fun _ => 0
      files := fun _ _ => 0 }
  keyOf _ := 0

def twoAnswers (pkey : Nat) : BoxNew.Answers := ⟨true, some pkey, .ok, .ok, .ok, true, true, 0⟩

theorem fresh_arm64 : Fresh (twoEngine arm64) 2 (twoWorld arm64) where
  start := ⟨by decide, by decide, by decide, by decide, by decide, ⟨twoHost, by decide⟩, rfl⟩
  pos := by decide
  page := by decide
  blank _ _ := rfl

theorem fresh_x64Pku : Fresh (twoEngine x64Pku) 2 (twoWorld x64Pku) where
  start := ⟨by decide, by decide, by decide, by decide, by decide, ⟨twoHost, by decide⟩, rfl⟩
  pos := by decide
  page := by decide
  blank _ _ := rfl

theorem step_new (e : Engine) (rt : Runtime) (s : World) (a : BoxNew.Answers) :
    Step e rt s (.new a) (s.lfiBoxNew e rt a).2 := rfl

def lowBase : Nat := 0x7f0100000000

def highBase : Nat := 0x7f0200000000

/-- Where the boxes are, with their callback tables. -/
def placesOf (s : World) : List (Nat × Option Nat) := s.boxes.map fun b => (b.box.base, b.table)

/-- Two boxes can be made. -/
theorem reaches_two (t : Target) (ok : World → Act → Prop) (hok : ∀ s a, ok s (.new a))
    (hplaces : placesOf (((twoWorld t).lfiBoxNew (twoEngine t) entries (twoAnswers 1)).2.lfiBoxNew
      (twoEngine t) entries (twoAnswers 2)).2 = [(highBase, none), (lowBase, none)]) :
    ∃ s, Reaches (Step (twoEngine t) entries) ok (twoWorld t) s ∧
      ∃ b ∈ s.boxes, ∃ c ∈ s.boxes, b.box.base = lowBase ∧ b.table = none ∧
        c.box.base = highBase := by
  have hmem : ∀ s : World, placesOf s = [(highBase, none), (lowBase, none)] →
      ∃ b ∈ s.boxes, ∃ c ∈ s.boxes, b.box.base = lowBase ∧ b.table = none ∧
        c.box.base = highBase := by
    intro s hs
    have hlow : (lowBase, none) ∈ placesOf s := hs.symm ▸ (by simp)
    have hhigh : (highBase, none) ∈ placesOf s := hs.symm ▸ (by simp)
    obtain ⟨b, hb, heq⟩ := List.mem_map.mp hlow
    obtain ⟨c, hc, heq'⟩ := List.mem_map.mp hhigh
    obtain ⟨hbase, htable⟩ := Prod.mk.inj heq
    exact ⟨b, hb, c, hc, hbase, htable, (Prod.mk.inj heq').1⟩
  have hone := step_new (twoEngine t) entries (twoWorld t) (twoAnswers 1)
  generalize ((twoWorld t).lfiBoxNew (twoEngine t) entries (twoAnswers 1)).2 = s₁ at hone hplaces
  have htwo := step_new (twoEngine t) entries s₁ (twoAnswers 2)
  generalize (s₁.lfiBoxNew (twoEngine t) entries (twoAnswers 2)).2 = s₂ at htwo hplaces
  exact ⟨s₂, ((Reaches.refl _).tail (hok _ _) hone).tail (hok _ _) htwo, hmem s₂ hplaces⟩

theorem two_arm64 : placesOf (((twoWorld arm64).lfiBoxNew (twoEngine arm64) entries
    (twoAnswers 1)).2.lfiBoxNew (twoEngine arm64) entries (twoAnswers 2)).2 =
      [(highBase, none), (lowBase, none)] := by
  decide +kernel

/-- With protection keys the range of the lower box has the runtime-call page of the other. -/
theorem pku_boxes_meet : ∃ s, Separated (twoEngine x64Pku) s ∧ ∃ b ∈ s.boxes, ∃ c ∈ s.boxes,
    ∃ x, Mappable b x ∧ SysPage (twoEngine x64Pku) c x := by
  obtain ⟨s, hrun, b, hb, c, hc, hlow, -, hhigh⟩ :=
    reaches_two x64Pku anyStep (fun _ _ => trivial) (by decide +kernel)
  have hseparated := boxes_separated fresh_x64Pku hrun
  obtain ⟨k, span, res, h⟩ := layout_of_reaches fresh_x64Pku hrun
  obtain ⟨-, hmax, -⟩ := h.bounds hb
  have hends : b.box.max + 0 = lowBase + gb 4 := by
    rw [← hlow]
    exact hmax
  exact ⟨s, hseparated, b, hb, c, hc, (hseparated.sysPages b hb c hc).mpr (hends.trans hhigh.symm)⟩

/-- The end of the lower box destroys the runtime-call page of the upper one, whose range it
spares. -/
theorem free_below : ∃ s s' : World, ∃ c ∈ s.boxes,
    Intact (twoEngine arm64) entries s c.box.base ∧
      (∀ x, Mappable c x → Same (twoEngine arm64) s s' x) ∧
        ¬Intact (twoEngine arm64) entries s' c.box.base := by
  obtain ⟨s, hrun, b, hb, c, hc, hlow, htable, hhigh⟩ :=
    reaches_two arm64 (SparesAbove (twoEngine arm64)) (fun _ _ => .inr (by simp)) two_arm64
  have hany : Reaches (Step (twoEngine arm64) entries) anyStep (twoWorld arm64) s :=
    hrun.mono fun _ _ _ => trivial
  obtain ⟨k, span, res, h, hpages⟩ := layout_intact_of_reaches fresh_arm64 (by decide) hrun
  have hintact := hpages _ (List.mem_map_of_mem hc)
  have hstep : Step (twoEngine arm64) entries s (.free b 0)
      (s.lfiBoxFree (twoEngine arm64) b 0) := ⟨hb, rfl, by simp [htable]⟩
  obtain ⟨hrange, hpage⟩ := acts_spare_others fresh_arm64 (by decide) hany hstep hc
  have hends : b.box.base + b.box.size = c.box.base := by
    rw [hlow, (h.kept b hb).size, hhigh]
    rfl
  refine ⟨s, _, c, hc, hintact, hrange ?_, fun hafter => ?_⟩
  · intro heq
    rw [Act.actor, Option.some.injEq, hlow, hhigh] at heq
    exact absurd heq (by decide)
  · exact ((hpage hintact).mp hafter b 0 rfl).2 hends

/-- The pages of both boxes. -/
theorem two_pages_intact : ∃ s : World, (∃ b ∈ s.boxes, b.box.base = lowBase) ∧
    (∃ c ∈ s.boxes, c.box.base = highBase) ∧
      ∀ p ∈ s.bases, Intact (twoEngine arm64) entries s p := by
  obtain ⟨s, hrun, b, hb, c, hc, hlow, -, hhigh⟩ :=
    reaches_two arm64 (SparesAbove (twoEngine arm64)) (fun _ _ => .inr (by simp)) two_arm64
  exact ⟨s, ⟨b, hb, hlow⟩, ⟨c, hc, hhigh⟩, runtime_pages_intact fresh_arm64 (by decide) hrun⟩

theorem isSome_first : ((twoWorld arm64).lfiBoxNew (twoEngine arm64) entries
    (twoAnswers 1)).1.isSome := by
  decide +kernel

/-- The first box. -/
def firstBox : KeyedBox :=
  ((twoWorld arm64).lfiBoxNew (twoEngine arm64) entries (twoAnswers 1)).1.get isSome_first

def firstWorld : World := ((twoWorld arm64).lfiBoxNew (twoEngine arm64) entries (twoAnswers 1)).2

/-- It maps its first page. -/
def firstMapping : Request :=
  .mapat firstBox.box.min 4096 (LFI_PROT_READ ||| LFI_PROT_WRITE) MAP_FLAGS (-1) 0

def mappedWorld : World :=
  request (twoEngine arm64) firstWorld firstBox firstMapping [] firstWorld.keyOf

/-- The box after its mapping. -/
def mappedBox : KeyedBox :=
  { firstBox with
    box := (serve (twoEngine arm64) firstBox.box ⟨firstWorld.mem, [], []⟩ firstMapping).1 }

/-- And stores a byte there. -/
def usedWorld : World :=
  { mappedWorld with mem := mappedWorld.mem.store 4096 firstBox.box.min 7 }

/-- Then it is freed. -/
def freedWorld : World := usedWorld.lfiBoxFree (twoEngine arm64) mappedBox 0

theorem new_first : (twoWorld arm64).lfiBoxNew (twoEngine arm64) entries (twoAnswers 1) =
    (some firstBox, firstWorld) :=
  Prod.ext (Option.some_get isSome_first).symm rfl

theorem mem_firstWorld : firstBox ∈ firstWorld.boxes := by
  obtain ⟨k, span, res, h⟩ := fresh_arm64.layout
  rw [(lfiBoxNew_some h.sane new_first).boxes]
  exact List.mem_cons_self

theorem mem_mappedWorld : mappedBox ∈ mappedWorld.boxes := by
  have hput := List.mem_map_of_mem
    (f := fun q : KeyedBox => if q.box.base = mappedBox.box.base then mappedBox else q) mem_firstWorld
  have hbase : firstBox.box.base = mappedBox.box.base := by decide +kernel
  rwa [if_pos hbase] at hput

theorem reaches_freed :
    Reaches (Step (twoEngine arm64) entries) anyStep (twoWorld arm64) freedWorld := by
  have hnew : Step (twoEngine arm64) entries (twoWorld arm64) (.new (twoAnswers 1)) firstWorld := rfl
  have hmap : Step (twoEngine arm64) entries firstWorld
      (.request firstBox firstMapping [] firstWorld.keyOf) mappedWorld :=
    ⟨mem_firstWorld, rfl, fun _ _ => rfl⟩
  have hstore : Step (twoEngine arm64) entries mappedWorld (.store mappedBox firstBox.box.min 7)
      usedWorld :=
    ⟨mem_mappedWorld, by decide +kernel, by decide +kernel, rfl⟩
  have hfree : Step (twoEngine arm64) entries usedWorld (.free mappedBox 0) freedWorld :=
    ⟨mem_mappedWorld, rfl, fun table htable => by
      rw [show mappedBox.table = none by decide +kernel] at htable
      cases htable⟩
  exact ((((Reaches.refl _).tail trivial hnew).tail trivial hmap).tail trivial hstore).tail
    trivial hfree

theorem isSome_again : (freedWorld.lfiBoxNew (twoEngine arm64) entries (twoAnswers 2)).1.isSome := by
  decide +kernel

def secondBox : KeyedBox :=
  (freedWorld.lfiBoxNew (twoEngine arm64) entries (twoAnswers 2)).1.get isSome_again

def secondWorld : World := (freedWorld.lfiBoxNew (twoEngine arm64) entries (twoAnswers 2)).2

/-- A box where an earlier one has stored a byte. -/
theorem reused_clean :
    usedWorld.shows (twoEngine arm64) firstBox.box.min =
        some (⟨Prot.readWrite, .priv⟩, 0, 7, .own firstBox.box.min) ∧
      freedWorld.lfiBoxNew (twoEngine arm64) entries (twoAnswers 2) =
        (some secondBox, secondWorld) ∧
      Mappable secondBox firstBox.box.min ∧ ∀ x, Mappable secondBox x →
        secondWorld.shows (twoEngine arm64) x = some (⟨Prot.none, .priv⟩, 0, 0, .own x) ∧
          lfiBoxMquery secondBox.box x = none := by
  have hnew : freedWorld.lfiBoxNew (twoEngine arm64) entries (twoAnswers 2) =
      (some secondBox, secondWorld) := Prod.ext (Option.some_get isSome_again).symm rfl
  have hplace : Mappable secondBox firstBox.box.min := by
    constructor <;> decide +kernel
  exact ⟨by decide +kernel, hnew, hplace, new_box_clean fresh_arm64 (by decide) reaches_freed hnew⟩

end LfiRuntime.EngineRuns
