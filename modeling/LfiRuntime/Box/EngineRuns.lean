import LfiRuntime.Box.BoxNew
import LfiRuntime.Box.CallbackInit

/-!
Runs of all the boxes of an engine, in one address space: boxes are made and
freed, memory is mapped in them, code runs in them. Where the boxes lie.
-/

namespace LfiRuntime.EngineRuns

open LfiRuntime.Box
open LfiRuntime.BoxNew
open LfiRuntime.Boxmap
open LfiRuntime.Config
open LfiRuntime.HostCalls
open LfiRuntime.Mmap
open LfiRuntime.PagedMemory
open LfiRuntime.Runs

/-- The calls of `box.c` on the memory of one box. -/
inductive Request
  | mapany (size : Nat) (prot flags : BitVec 32) (fd off : Int) (noVerify : Bool)
  | mapat (addr size : Nat) (prot flags : BitVec 32) (fd off : Int)
  | mapatRegister (addr size : Nat) (prot flags : BitVec 32) (fd off : Int)
  | mprotect (addr size : Nat) (prot : BitVec 32) (noVerify : Bool)
  | munmap (addr size : Nat)
  | initRet

/-- The box and the host after the call. -/
def serve (e : Engine) (box : LFIBox) (h : HostCalls.Host) : Request → LFIBox × HostCalls.Host
  | .mapany size prot flags fd off noVerify =>
      (boxMapanyLocked e box h size prot flags fd off noVerify).2
  | .mapat addr size prot flags fd off => (boxMapatLocked e box h addr size prot flags fd off).2
  | .mapatRegister addr size prot flags fd off =>
      (lfiBoxMapatRegister e box h addr size prot flags fd off).2
  | .mprotect addr size prot noVerify => (boxMprotectLocked e box h addr size prot noVerify).2
  | .munmap addr size => (boxMunmapLocked e box h addr size).2
  | .initRet => (lfiBoxInitRet e box h).2

/-- Nothing changes outside the pages of `[start, start + len)`, but for what files show. -/
structure Confined (ps start len : Nat) (m m' : Memory) : Prop where
  pages : ∀ p, ¬InSpan ps start len p → m'.pages p = m.pages p
  own : ∀ a, ¬InSpan ps start len (a / ps) → m.cell ps a = .own a →
    m'.cell ps a = .own a ∧ m'.read ps a = m.read ps a

/-- A call on a box leaves the box what it is, and stays in its mappable range. -/
structure Served (e : Engine) (r : Region) (box : LFIBox) (m : Memory) (box' : LFIBox)
    (m' : Memory) : Prop where
  box_eq : box' = { box with mm := box'.mm, retaddr := box'.retaddr }
  works : Works e r box'
  confined : Confined e.opts.pagesize box.min (box.max - box.min) m m'

section

variable {e : Engine} {r : Region} {box box' box'' : LFIBox} {h h' : HostCalls.Host}
  {m m' m'' : Memory} {ps start len addr size : Nat} {prot flags : BitVec 32} {fd off : Int}

theorem Confined.refl (m : Memory) : Confined ps start len m m :=
  ⟨fun _ _ => rfl, fun _ _ hown => ⟨hown, rfl⟩⟩

theorem Confined.trans (hc : Confined ps start len m m') (hc' : Confined ps start len m' m'') :
    Confined ps start len m m'' := by
  refine ⟨fun p hp => (hc'.pages p hp).trans (hc.pages p hp), fun a ha hown => ?_⟩
  obtain ⟨hown', hread⟩ := hc.own a ha hown
  obtain ⟨hown'', hread'⟩ := hc'.own a ha hown'
  exact ⟨hown'', hread'.trans hread⟩

theorem Confined.mono {start' len' : Nat} (hc : Confined ps start' len' m m')
    (hsub : ∀ p, InSpan ps start' len' p → InSpan ps start len p) :
    Confined ps start len m m' :=
  ⟨fun p hp => hc.pages p fun hin => hp (hsub p hin),
    fun a ha => hc.own a fun hin => ha (hsub _ hin)⟩

theorem confined_of_within (hw : Within ps start len h h') : Confined ps start len h.mem h'.mem :=
  ⟨hw.pages, fun a ha hown => ⟨(hw.cell ha).trans hown, hw.bytes a ha⟩⟩

theorem Served.refl (hw : Works e r box) (m : Memory) : Served e r box m box m :=
  ⟨rfl, hw, .refl m⟩

theorem Served.trans (hs : Served e r box m box' m') (hs' : Served e r box' m' box'' m'') :
    Served e r box m box'' m'' := by
  have hbox := hs.box_eq
  have hbox' := hs'.box_eq
  refine ⟨?_, hs'.works, hs.confined.trans ?_⟩
  · rw [hbox', hbox]
  · have hconfined := hs'.confined
    rw [hbox] at hconfined
    exact hconfined

theorem Served.retaddr (hs : Served e r box m box' m') (a : Nat) :
    Served e r box m { box' with retaddr := a } m' := by
  have hb := hs.works.region
  exact ⟨by rw [hs.box_eq], ⟨⟨hb.pagesize, hb.lo, hb.hi, hb.lt⟩, hs.works.mapper⟩, hs.confined⟩

theorem inSpan_range_iff (hw : Works e r box) (x : Nat) :
    InSpan e.opts.pagesize box.min (box.max - box.min) (x / e.opts.pagesize) ↔
      box.min ≤ x ∧ x < box.max := by
  have hb := hw.region
  have hlo : e.opts.pagesize ∣ box.min := by
    rw [hb.lo, hb.pagesize]
    exact Nat.dvd_mul_left _ _
  have hhi : e.opts.pagesize ∣ box.max := by
    rw [hb.hi, hb.pagesize]
    exact Nat.dvd_mul_left _ _
  have hle : box.min ≤ box.max := by
    rw [hb.lo, hb.hi]
    exact Nat.mul_le_mul_right _ (Nat.le_add_right _ _)
  rw [inSpan_iff (hb.pagesize ▸ r.pagesize_pos) hlo (Nat.dvd_sub hhi hlo), Nat.add_sub_cancel' hle]

theorem inSpan_range {p : Nat} (hbuf : lfiBoxBufvalid box addr size = true)
    (hp : InSpan ps addr size p) : InSpan ps box.min (box.max - box.min) p := by
  simp only [lfiBoxBufvalid, Bool.and_eq_true, decide_eq_true_eq] at hbuf
  exact inSpan_mono hbuf.1.1 (by omega) hp

theorem served_of_only (ho : Only e r addr size box h box' h')
    (hbuf : lfiBoxBufvalid box addr size = true) : Served e r box h.mem box' h'.mem := by
  obtain ⟨mm, hbox⟩ := ho.box_eq
  refine ⟨by rw [hbox], ho.works, ?_⟩
  exact (confined_of_within ho.within).mono fun p => inSpan_range hbuf

theorem served_mapany (hw : Works e r box) (h : HostCalls.Host) (size : Nat)
    (prot flags : BitVec 32) (fd off : Int) (noVerify : Bool) :
    let u := boxMapanyLocked e box h size prot flags fd off noVerify
    Served e r box h.mem u.2.1 u.2.2.mem := by
  intro u
  rcases mapany_cases hw h size prot flags fd off noVerify with
    ⟨addr, -, hacc, -, hset, -, -⟩ | ⟨-, ⟨mm, hbox⟩, hworks, -, hcase⟩
  · exact served_of_only (hset.only hw hacc) (Callbacks.bufvalid_of_accepts hw hacc)
  · refine ⟨by rw [show u.2.1 = _ from hbox], hworks, ?_⟩
    rcases hcase with ⟨-, hhost⟩ | ⟨addr, -, hacc, -, hhost⟩
    · rw [show u.2.2 = _ from hhost]
      exact .refl _
    · have hbuf := Callbacks.bufvalid_of_accepts hw hacc
      have hpages := fun p => (hw.region.inSpan_pages hacc (p := p)).mp
      rw [show u.2.2 = _ from hhost]
      exact (confined_of_within ((within_mapverify ..).trans
        ((within_cbunmap ..).mono hpages))).mono fun p => inSpan_range hbuf

theorem served_mapat (hw : Works e r box) (h : HostCalls.Host) (addr size : Nat)
    (prot flags : BitVec 32) (fd off : Int) :
    let u := boxMapatLocked e box h addr size prot flags fd off
    Served e r box h.mem u.2.1 u.2.2.mem := by
  intro u
  rcases mapat_cases hw h addr size prot flags fd off with
    ⟨heq, -⟩ | ⟨hbuf, hacc, ⟨-, -, hset, -⟩ | ⟨-, -, hset, -⟩⟩
  · rw [show u = _ from heq]
    exact .refl hw h.mem
  · exact served_of_only (hset.only hw hacc) hbuf
  · exact served_of_only (hset.only hw hacc) hbuf

theorem served_mapatRegister (hw : Works e r box) (h : HostCalls.Host) (addr size : Nat)
    (prot flags : BitVec 32) (fd off : Int) :
    let u := lfiBoxMapatRegister e box h addr size prot flags fd off
    Served e r box h.mem u.2.1 u.2.2.mem := by
  simp only [lfiBoxMapatRegister]
  split
  · exact .refl hw h.mem
  rename_i hbuf
  rw [Bool.not_eq_true', Bool.not_eq_false] at hbuf
  rcases hw.mapper.mapAt_cases hw.region.fits addr size ⟨prot, flags, fd, off⟩ with
    ⟨mm, heq, hacc, hm, -, hrec⟩ | ⟨heq, -⟩
  · simp only [heq]
    have hmem := mem_verify (e := e) (unmapped e box h addr size) addr size prot
    have hconfined : Confined e.opts.pagesize box.min (box.max - box.min) h.mem
        (unmapped e box h addr size).mem :=
      (confined_of_within (hw.within_unmapped h addr size)).mono fun p => inSpan_range hbuf
    rw [← hmem] at hconfined
    split
    · obtain ⟨mm', hunmap, hm', -⟩ := hw.region.unmap_recorded hm hacc hrec
      simp only [hunmap]
      exact ⟨rfl, hw.with_mm hm', hconfined⟩
    · exact ⟨rfl, hw.with_mm hm, hconfined⟩
  · simp only [heq]
    exact .refl hw h.mem

theorem served_mprotect (hw : Works e r box) (h : HostCalls.Host) (addr size : Nat)
    (prot : BitVec 32) (noVerify : Bool) :
    let u := boxMprotectLocked e box h addr size prot noVerify
    Served e r box h.mem u.2.1 u.2.2.mem := by
  intro u
  obtain ⟨ho, -⟩ := boxMprotect_cases hw h addr size prot noVerify
  rcases Bool.eq_false_or_eq_true (lfiBoxBufvalid box addr size) with hbuf | hbuf
  · exact served_of_only ho hbuf
  · have heq : u = (-1, box, h) := by
      simp [u, boxMprotectLocked, hbuf]
    rw [heq]
    exact .refl hw h.mem

theorem served_munmap (hw : Works e r box) (h : HostCalls.Host) (addr size : Nat) :
    let u := boxMunmapLocked e box h addr size
    Served e r box h.mem u.2.1 u.2.2.mem := by
  intro u
  obtain ⟨ho, -⟩ := boxMunmap_cases hw h addr size
  rcases Bool.eq_false_or_eq_true (lfiBoxBufvalid box addr size) with hbuf | hbuf
  · exact served_of_only ho hbuf
  · have heq : u = (-EINVAL, box, h) := by
      simp [u, boxMunmapLocked, hbuf]
    rw [heq]
    exact .refl hw h.mem

/-- Bytes written to private pages of the range. -/
theorem confined_writeBytes {bs : List UInt8} (hps : 0 < ps)
    (hpriv : ∀ k, k < bs.length → m.backing ((addr + k) / ps) = .priv) (hlo : start ≤ addr)
    (hhi : addr + bs.length ≤ start + len) : Confined ps start len m (m.writeBytes ps addr bs) := by
  refine ⟨fun p _ => by rw [Memory.pages_writeBytes],
    fun a ha hown => ⟨Memory.cell_writeBytes_own bs hown, ?_⟩⟩
  rw [Memory.read_writeBytes hpriv]
  apply patch_of_not
  by_contra hin
  exact ha (inSpan_of_mem hps (by omega) (by omega))

theorem length_ret_le (t : Target) : (ret t).length ≤ 11 := by
  unfold ret
  split_ifs <;> decide

theorem served_initRet (hw : Works e r box) (hroom : 11 ≤ e.opts.pagesize)
    (h : HostCalls.Host) :
    let u := lfiBoxInitRet e box h
    Served e r box h.mem u.2.1 u.2.2.mem := by
  simp only [lfiBoxInitRet]
  have hany := served_mapany hw h e.opts.pagesize (LFI_PROT_READ ||| LFI_PROT_WRITE)
    (LFI_MAP_ANONYMOUS ||| LFI_MAP_PRIVATE) (-1) 0 false
  have hcases := mapany_cases hw h e.opts.pagesize (LFI_PROT_READ ||| LFI_PROT_WRITE)
    (LFI_MAP_ANONYMOUS ||| LFI_MAP_PRIVATE) (-1) 0 false
  generalize boxMapanyLocked e box h _ _ _ _ _ _ = u at hany hcases ⊢
  obtain ⟨_ | addr, box', h'⟩ := u
  · exact hany
  dsimp only at hany hcases ⊢
  split
  · exact hany
  obtain ⟨_, heq, hacc, -, -, hver, hhost⟩ := hcases.resolve_right (by simp)
  obtain rfl := Option.some.inj heq
  obtain ⟨pr, hsame⟩ := sameBytes_mapverify rfl hver
  rw [← show h' = _ from hhost] at hsame
  have hpriv : ∀ x, addr ≤ x → x < addr + e.opts.pagesize →
      h'.mem.backing (x / e.opts.pagesize) = .priv := by
    intro x hlo hhi
    rw [hsame.backing]
    exact Memory.backing_mmapFixed_of_private (inSpan_of_mem (by omega) hlo hhi) (by simp)
  have hbuf := Callbacks.bufvalid_of_accepts hany.works hacc
  simp only [lfiBoxBufvalid, Bool.and_eq_true, decide_eq_true_eq] at hbuf
  have hfill : ∀ (m : Memory) (bs : List UInt8), m.pages = h'.mem.pages →
      bs.length ≤ e.opts.pagesize →
        Served e r box' m box' (m.writeBytes e.opts.pagesize addr bs) := by
    intro m bs hpages hlen
    refine ⟨rfl, hany.works, confined_writeBytes (by omega) (fun k hk => ?_) hbuf.1.1 (by omega)⟩
    rw [← hpriv (addr + k) (by omega) (by omega), Memory.backing, Memory.backing, hpages]
  have hret := (length_ret_le e.target).trans hroom
  have hcode : ∃ m, Served e r box' h'.mem box' m ∧ m.pages = h'.mem.pages ∧
      (if e.target = x64 ∨ e.target = x64Pku then
        h'.mem.writeBytes e.opts.pagesize addr (List.replicate e.opts.pagesize 0xcc)
      else h'.mem) = m := by
    refine ⟨_, ?_, ?_, rfl⟩
    · split
      · exact hfill _ _ rfl (by simp)
      · exact .refl hany.works _
    · split
      · exact Memory.pages_writeBytes ..
      · rfl
  obtain ⟨m, hserved, hpages, hm⟩ := hcode
  rw [hm]
  have hprotect := served_mprotect hany.works
    { h' with mem := m.writeBytes e.opts.pagesize addr (ret e.target) } addr e.opts.pagesize
    (LFI_PROT_READ ||| LFI_PROT_EXEC) false
  have hdone := (hany.trans (hserved.trans (hfill m _ hpages hret))).trans hprotect
  split
  · exact hdone
  · exact hdone.retaddr addr

theorem serve_served (hw : Works e r box) (hroom : 11 ≤ e.opts.pagesize) (h : HostCalls.Host)
    (c : Request) : Served e r box h.mem (serve e box h c).1 (serve e box h c).2.mem := by
  cases c with
  | mapany => exact served_mapany hw h ..
  | mapat => exact served_mapat hw h ..
  | mapatRegister => exact served_mapatRegister hw h ..
  | mprotect => exact served_mprotect hw h ..
  | munmap => exact served_munmap hw h ..
  | initRet => exact served_initRet hw hroom h

end

/-! Runs. -/

/-- What is done to the boxes, what code in a box does, and what the rest of the process
does. The host's own work on the callbacks of a box is `callbacks`. The keys of pages are
those of the system calls, which only set them where they act. -/
inductive Act
  | new (a : BoxNew.Answers)
  | free (b : KeyedBox) (len : Nat)
  | request (b : KeyedBox) (c : Request) (outcomes : List Outcome) (keyOf : Nat → Nat)
  | store (b : KeyedBox) (addr : Nat) (byte : UInt8)
  | callbacks (b b' : KeyedBox) (mem : Memory) (keyOf : Nat → Nat)
  | process (mem : Memory) (keyOf : Nat → Nat)

/-- The box in its new state. -/
def put (s : World) (b : KeyedBox) : World :=
  { s with boxes := s.boxes.map fun q => if q.box.base = b.box.base then b else q }

/-- `serve`, for a box of the engine. -/
def request (e : Engine) (s : World) (b : KeyedBox) (c : Request) (outcomes : List Outcome)
    (keyOf : Nat → Nat) : World :=
  let u := serve e b.box ⟨s.mem, outcomes, []⟩ c
  { put s { b with box := u.1 } with mem := u.2.mem, keyOf := keyOf }

/-- A page of the mappable range of the box. -/
def InRange (e : Engine) (b : KeyedBox) (p : Nat) : Prop :=
  InSpan e.opts.pagesize b.box.min (b.box.max - b.box.min) p

/-- What the host does for the callbacks of a box: it maps pages of the box, and memory
of its own. -/
structure CallbackWork (e : Engine) (s : World) (b b' : KeyedBox) (mem : Memory)
    (keyOf : Nat → Nat) : Prop where
  box_eq : b'.box = { b.box with mm := b'.box.mm }
  pkey : b'.pkey = b.pkey
  works : ∀ r, Works e r b.box → Works e r b'.box
  shows : ∀ x, InReservation s.map x → ¬InRange e b (x / e.opts.pagesize) →
    mem.pages (x / e.opts.pagesize) = s.mem.pages (x / e.opts.pagesize) ∧
      (s.mem.cell e.opts.pagesize x = .own x →
        World.shows e { s with mem := mem, keyOf := keyOf } x = s.shows e x)

/-- The steps. Only a live box is used, and its callback table is not in what the engine
has reserved. -/
def Step (e : Engine) (rt : Runtime) (s : World) (act : Act) (s' : World) : Prop :=
  match act with
  | .new a => s' = (s.lfiBoxNew e rt a).2
  | .free b len => b ∈ s.boxes ∧ s' = s.lfiBoxFree e b len ∧ ∀ table ∈ b.table,
      ∀ x, InSpan e.opts.pagesize table len (x / e.opts.pagesize) → ¬InReservation s.map x
  | .request b c outcomes keyOf => b ∈ s.boxes ∧ s' = request e s b c outcomes keyOf ∧
      ∀ p, ¬InRange e b p → keyOf p = s.keyOf p
  | .store b addr byte => b ∈ s.boxes ∧ b.box.min ≤ addr ∧ addr < b.box.max ∧
      s' = { s with mem := s.mem.store e.opts.pagesize addr byte }
  | .callbacks b b' mem keyOf => b ∈ s.boxes ∧ CallbackWork e s b b' mem keyOf ∧
      s' = { put s b' with mem := mem, keyOf := keyOf }
  | .process mem keyOf =>
      (∀ x, InReservation s.map x →
        mem.pages (x / e.opts.pagesize) = s.mem.pages (x / e.opts.pagesize) ∧
          (s.mem.cell e.opts.pagesize x = .own x →
            World.shows e { s with mem := mem, keyOf := keyOf } x = s.shows e x)) ∧
        s' = { s with mem := mem, keyOf := keyOf }

/-- An engine right after `lfi_new` has reserved address space for at least one box: no
page there is accessible. -/
structure Fresh (e : Engine) (n : Nat) (s : World) : Prop where
  start : Start e n s
  pos : 0 < n
  page : e.opts.pagesize ∣ kb 64
  blank : ∀ x, InReservation s.map x → s.shows e x = some (⟨Prot.none, .priv⟩, 0, 0, .own x)

/-! Where the boxes lie. -/

/-- A box as `lfi_box_new` makes it, with the mapper of its range. -/
structure Kept (e : Engine) (b : KeyedBox) : Prop where
  size : b.box.size = e.opts.boxsize
  min : b.box.min = b.box.base + max e.target.boxInternalGuard e.opts.pagesize
  max : b.box.max = b.box.base + e.opts.boxsize - e.target.boxInternalGuard
  works : ∃ r, Works e r b.box

/-- The region `span` that `addregion` has carved out of the reservation `res`, for boxes of
`k` chunks. -/
structure Carved (e : Engine) (k : Nat) (span res : Space) : Prop where
  target : e.target ∈ all
  footprint : boxFootprint e.target e.opts.boxsize = k * gb 4
  valid : ValidSize (gb 4) (k * gb 4)
  boxsize : gb 4 ∣ e.opts.boxsize ∧ 0 < e.opts.boxsize
  page : e.opts.pagesize ∣ kb 64
  room : sizeofSys ≤ e.opts.pagesize
  lo : res.base + e.target.regionGuard ≤ span.base
  hi : span.base + span.size + e.target.regionGuard ≤ res.base + res.size

/-- What the host has given for the region. -/
def reservation (r : AddrRegion) : Space := ⟨r.mapbase, r.mapsize⟩

/-- What holds of every state of a run. -/
structure Layout (e : Engine) (k : Nat) (span res : Space) (s : World) : Prop where
  carved : Carved e k span res
  engine : EngineInv k span ⟨s.map, s.bases⟩
  reserved : s.map.regions.map reservation = [res]
  kept : ∀ b ∈ s.boxes, Kept e b

section

variable {e : Engine} {rt : Runtime} {k n : Nat} {span res : Space} {s s' : World} {b b' : KeyedBox}
  {a : BoxNew.Answers} {act : Act} {map map' : BoxMap}

/-! The reservations of the regions do not change. -/

theorem reservations_allocslot (regions : List AddrRegion) (size : Nat) :
    (allocslot regions size).2.map reservation = regions.map reservation := by
  induction regions with
  | nil => rfl
  | cons r regions ih =>
      simp only [allocslot]
      split
      · rfl
      · rw [List.map_cons, List.map_cons, ih]
        rfl

theorem reservations_deleteslot (regions : List AddrRegion) (base size : Nat) :
    (deleteslot regions base size).map reservation = regions.map reservation := by
  simp only [deleteslot, List.map_map]
  apply List.map_congr_left
  intro r _
  simp only [Function.comp_apply, deleteIn]
  split <;> rfl

namespace Layout

variable (h : Layout e k span res s)

include h

theorem sane : EngineSane e s := by
  refine ⟨⟨[span], List.pairwise_singleton _ _, ?_⟩, ?_, h.carved.boxsize.1,
    h.carved.page.trans (by decide), h.carved.room⟩
  · rw [h.carved.footprint]
    exact h.engine.inv
  · rw [h.carved.footprint]
    exact h.carved.valid

theorem pos : 0 < e.opts.pagesize := lt_of_lt_of_le (by decide) h.carved.room

/-- The box whose space is at `p`, if there is one, is placed like the others. -/
theorem placed_nextBase (hne : s.nextBase e ≠ 0) :
    ∃ q, s.nextBase e = span.base + q * k * gb 4 := by
  have hplaced := h.engine.placed_addspace h.carved.valid
  rw [World.nextBase, h.carved.footprint] at hne ⊢
  exact hplaced hne

end Layout

/-- What a call that gets through shows: the runtime-call page, the space under its key
where there are keys, and nothing else. -/
structure Shown (e : Engine) (rt : Runtime) (a : BoxNew.Answers) (s : World) (b : KeyedBox)
    (s' : World) : Prop where
  box : Box.lfiBoxNew e (s.nextBase e) a.seed = some b.box
  shows : ∃ s₁, Keyed e a s (s.nextBase e) b.pkey s₁ ∧ ∀ x, s'.shows e x =
    if s.nextBase e - e.opts.pagesize ≤ x ∧ x < s.nextBase e then
      some (⟨Prot.readOnly, .priv⟩, if e.target.pku then b.pkey else 0,
        sysByte rt (s.nextBase e) x, .own x)
    else s₁.shows e x

theorem box_of_mmapCreate {base : Nat} {mm : AddrSpace}
    (hcreate : World.mmapCreate e a (base + max e.target.boxInternalGuard e.opts.pagesize)
      (base + e.opts.boxsize - e.target.boxInternalGuard) = some mm) :
    Box.lfiBoxNew e base a.seed = some ⟨base, e.opts.boxsize,
      base + max e.target.boxInternalGuard e.opts.pagesize,
      base + e.opts.boxsize - e.target.boxInternalGuard, mm, 0⟩ := by
  have hoff : (if e.target.boxInternalGuard > e.opts.pagesize then e.target.boxInternalGuard
      else e.opts.pagesize) = max e.target.boxInternalGuard e.opts.pagesize := by
    split <;> omega
  unfold World.mmapCreate at hcreate
  split at hcreate
  · obtain ⟨mm', hinit, rfl⟩ := Option.map_eq_some_iff.mp hcreate
    simp only [Box.lfiBoxNew, hoff, hinit]
  · cases hcreate

theorem lfiBoxNew_shown {live : List Space} (h : Sane e live s)
    (hsome : s.lfiBoxNew e rt a = (some b, s')) : Shown e rt a s b s' := by
  have hne : s.nextBase e ≠ 0 := (lfiBoxNew_some h hsome).ne
  have hpage := h.pageBefore hne
  unfold World.lfiBoxNew at hsome
  simp only at hsome
  split at hsome
  · cases (Prod.mk.inj hsome).1
  change (if s.nextBase e = 0 then _ else _) = _ at hsome
  rw [if_neg hne] at hsome
  rcases newKey_cases hpage (h.page.trans h.boxsize)
      { s with map := (boxmapAddspace s.map (boxFootprint e.target e.opts.boxsize)).2 } a with
    ⟨-, -, heq⟩ | ⟨-, pkey, s₁, heq, hkeyed⟩
  · rw [World.nextBase] at heq
    rw [heq] at hsome
    cases (Prod.mk.inj hsome).1
  rw [World.nextBase] at heq
  simp only [heq] at hsome
  obtain ⟨s₂, hsetup, hset⟩ := syssetup_spec hpage rt s₁ a pkey
  rw [World.nextBase] at hsetup
  rw [hsetup] at hsome
  cases hok : a.mmap.isOk && a.protect.isOk with
  | false =>
      simp only [hok] at hsome
      cases (Prod.mk.inj hsome).1
  | true =>
      simp only [hok] at hsome
      split at hsome
      · cases (Prod.mk.inj hsome).1
      split at hsome
      · cases (Prod.mk.inj hsome).1
      rename_i mm hcreate
      obtain ⟨hb, rfl⟩ := Prod.mk.inj hsome
      obtain rfl := Option.some.inj hb
      obtain ⟨hmmap, hprotect⟩ := Bool.and_eq_true_iff.mp hok
      refine ⟨box_of_mmapCreate hcreate, { s₁ with map := s.map }, ?_, fun x => ?_⟩
      · exact ⟨rfl, hkeyed.boxes, hkeyed.keys, hkeyed.alloc, hkeyed.shows⟩
      · have hshows := hset.shows x
        simp only [lastPage, hmmap, hprotect, Outcome.reaches_of_isOk hmmap,
          Outcome.reaches_of_isOk hprotect, true_and, Bool.true_eq_false, false_and, or_self,
          if_false, if_true] at hshows
        exact hshows

theorem kept_of_new {p : Nat} {seed : UInt64} (hp : Placed e p)
    (hbox : Box.lfiBoxNew e p seed = some b.box) : Kept e b ∧ b.box.base = p := by
  obtain ⟨r, hregion, himpl, -⟩ := boxRegion_new hp hbox
  have hoff : (if e.target.boxInternalGuard > e.opts.pagesize then e.target.boxInternalGuard
      else e.opts.pagesize) = max e.target.boxInternalGuard e.opts.pagesize := by
    split <;> omega
  have hworks : Works e r b.box := ⟨hregion, himpl⟩
  clear hregion himpl
  simp only [Box.lfiBoxNew, hoff] at hbox
  split at hbox
  · cases hbox
  obtain ⟨⟨base, size, min, max, mm, retaddr⟩, pkey, table⟩ := b
  obtain ⟨rfl, rfl, rfl, rfl, -, -⟩ := LFIBox.mk.inj (Option.some.inj hbox)
  exact ⟨⟨rfl, rfl, rfl, r, hworks⟩, rfl⟩

theorem bases_put (s : World) (b : KeyedBox) : (put s b).bases = s.bases := by
  simp only [put, World.bases, List.map_map]
  apply List.map_congr_left
  intro q _
  simp only [Function.comp_apply]
  split
  · rename_i heq
    exact heq.symm
  · rfl

theorem mem_put {q : KeyedBox} (hq : q ∈ (put s b).boxes) :
    q = b ∨ q ∈ s.boxes ∧ q.box.base ≠ b.box.base := by
  obtain ⟨q', hmem, heq⟩ := List.mem_map.mp hq
  split at heq
  · exact .inl heq.symm
  · rename_i hne
    subst heq
    exact .inr ⟨hmem, hne⟩

namespace Layout

variable (h : Layout e k span res s)

include h

theorem put (hb : Kept e b) : Layout e k span res (EngineRuns.put s b) := by
  refine ⟨h.carved, ?_, h.reserved, fun q hq => ?_⟩
  · rw [bases_put]
    exact h.engine
  · rcases mem_put hq with rfl | ⟨hmem, -⟩
    · exact hb
    · exact h.kept q hmem

theorem with_mem (mem : Memory) (keyOf : Nat → Nat) :
    Layout e k span res { s with mem := mem, keyOf := keyOf } :=
  ⟨h.carved, h.engine, h.reserved, h.kept⟩

theorem placed (hne : s.nextBase e ≠ 0) : Placed e (s.nextBase e) := by
  have hchunk : kb 64 ∣ gb 4 := by decide
  have hbase := h.engine.inv.addspace_base (List.pairwise_singleton _ _) h.carved.valid
  have hfp := h.carved.footprint
  rw [World.nextBase, hfp] at hne ⊢
  obtain ⟨hdvd, hlt⟩ := hbase hne
  replace hlt : (boxmapAddspace s.map (k * gb 4)).1 + k * gb 4 < 2 ^ 64 := hlt
  have hle : e.opts.boxsize ≤ k * gb 4 := hfp ▸ Nat.le_add_right _ _
  refine ⟨h.carved.target, h.carved.page, hchunk.trans hdvd, hchunk.trans h.carved.boxsize.1, ?_,
    by omega⟩
  have hroom := Nat.le_of_dvd h.carved.boxsize.2 h.carved.boxsize.1
  exact le_trans (by decide) hroom

theorem new (rt : Runtime) (a : BoxNew.Answers) :
    Layout e k span res (s.lfiBoxNew e rt a).2 := by
  rcases hnew : s.lfiBoxNew e rt a with ⟨_ | b, s'⟩
  · obtain ⟨hmap, hboxes⟩ : s'.map = s.map ∧ s'.boxes = s.boxes := by
      rcases lfiBoxNew_none h.sane hnew with ⟨-, hmap, -, hboxes, -⟩ | ⟨-, hmap, -, hboxes, -, -⟩
      · exact ⟨hmap, hboxes⟩
      · exact ⟨hmap, hboxes⟩
    refine ⟨h.carved, ?_, ?_, fun b hb => h.kept b (hboxes ▸ hb)⟩
    · rw [World.bases, hboxes, hmap]
      exact h.engine
    · rw [hmap]
      exact h.reserved
  · have hmade := lfiBoxNew_some h.sane hnew
    have hnext := h.engine.new h.carved.valid h.carved.footprint true
    have hne := hmade.ne
    simp only [applyEngine, Boxmap.lfiBoxNew, World.nextBase] at hnext hne
    rw [if_neg hne] at hnext
    refine ⟨h.carved, ?_, ?_, fun q hq => ?_⟩
    · rw [hmade.bases, hmade.map]
      exact hnext
    · rw [hmade.map]
      exact (reservations_allocslot ..).trans h.reserved
    · rw [hmade.boxes] at hq
      rcases List.mem_cons.mp hq with rfl | hq
      · exact (kept_of_new (h.placed hmade.ne) (lfiBoxNew_shown h.sane hnew).box).1
      · exact h.kept q hq

theorem free (hb : b ∈ s.boxes) (len : Nat) : Layout e k span res (s.lfiBoxFree e b len) := by
  obtain ⟨hmap, hbases⟩ := lfiBoxFree_rest e s b len
  have hboxes : (s.lfiBoxFree e b len).boxes =
      s.boxes.eraseP fun b' => b.box.base == b'.box.base := by
    unfold World.lfiBoxFree World.pkeyFree
    cases b.table <;> simp only <;> split_ifs <;> rfl
  refine ⟨h.carved, ?_, ?_, fun q hq => ?_⟩
  · rw [hbases, hmap]
    exact h.engine.free h.carved.footprint (List.mem_map_of_mem hb)
  · rw [hmap]
    exact (reservations_deleteslot ..).trans h.reserved
  · rw [hboxes] at hq
    exact h.kept q (List.mem_of_mem_eraseP hq)

theorem step (hstep : Step e rt s act s') : Layout e k span res s' := by
  cases act with
  | new a =>
      obtain rfl := hstep
      exact h.new rt a
  | free b len =>
      obtain ⟨hb, rfl, -⟩ := hstep
      exact h.free hb len
  | request b c outcomes keyOf =>
      obtain ⟨hb, rfl, -⟩ := hstep
      have hkept := h.kept b hb
      obtain ⟨r, hw⟩ := hkept.works
      have hroom : 11 ≤ e.opts.pagesize := le_trans (by decide) h.carved.room
      have hserved := serve_served hw hroom ⟨s.mem, outcomes, []⟩ c
      apply (h.put ?_).with_mem
      have hbox := hserved.box_eq
      generalize (serve e b.box ⟨s.mem, outcomes, []⟩ c).1 = box' at hbox hserved
      refine ⟨?_, ?_, ?_, r, hserved.works⟩
      · rw [hbox]
        exact hkept.size
      · rw [hbox]
        exact hkept.min
      · rw [hbox]
        exact hkept.max
  | store b addr byte =>
      obtain ⟨-, -, -, rfl⟩ := hstep
      exact h.with_mem _ _
  | callbacks b b' mem keyOf =>
      obtain ⟨hb, hwork, rfl⟩ := hstep
      have hkept := h.kept b hb
      apply (h.put ?_).with_mem
      refine ⟨?_, ?_, ?_, hkept.works.imp hwork.works⟩
      · rw [hwork.box_eq]
        exact hkept.size
      · rw [hwork.box_eq]
        exact hkept.min
      · rw [hwork.box_eq]
        exact hkept.max
  | process mem keyOf =>
      obtain ⟨-, rfl⟩ := hstep
      exact h.with_mem mem keyOf

end Layout

/-- The region of a fresh engine. -/
theorem Fresh.layout (h : Fresh e n s) : ∃ k span res, Layout e k span res s := by
  obtain ⟨host, hnew⟩ := h.start.reserved
  have hext : ∀ t ∈ all, gb 4 ∣ t.boxExternalGuard := by decide
  obtain ⟨k, span, hfp, hvalid, -, hengine⟩ := engineInv_of_reaches
    (hext _ h.start.target) h.start.boxsize.1 h.start.boxsize.2 h.pos h.start.wrap hnew (.refl _)
  obtain ⟨r, hr, hbase, hsize, htracks⟩ := hengine.exists_region
  obtain ⟨hlo, hhi⟩ := lfiNew_margins h.pos h.start.wrap hnew hr htracks.shaped.lt
  refine ⟨k, span, reservation r, ?_, ?_, ?_, ?_⟩
  · exact ⟨h.start.target, hfp, hvalid, h.start.boxsize, h.page, h.start.page.2, hbase ▸ hlo,
      by rw [← hbase, ← hsize]; exact hhi⟩
  · rw [World.bases, h.start.boxes]
    exact hengine
  · exact congrArg (List.map reservation) hr
  · rw [h.start.boxes]
    simp

/-- Every state of an engine. -/
theorem layout_of_reaches {s₀ : World} (hstart : Fresh e n s₀)
    (hrun : Reaches (Step e rt) anyStep s₀ s) : ∃ k span res, Layout e k span res s := by
  obtain ⟨k, span, res, h⟩ := hstart.layout
  exact ⟨k, span, res, hrun.invariant h fun _ _ _ h _ hstep => h.step hstep⟩

end

end LfiRuntime.EngineRuns
