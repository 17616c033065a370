import Mathlib.Tactic
import LfiRuntime.Box.Box
import LfiRuntime.Boxmap.Capacity
import LfiRuntime.Lib.MemoryWords

/-!
`lfi_box_new` and `lfi_box_free`: the boxes of an engine, with the address space, the
protection keys and the pages of the host that they take and give back.
-/

namespace LfiRuntime.BoxNew

open LfiRuntime.Box
open LfiRuntime.Boxmap
open LfiRuntime.Config
open LfiRuntime.HostCalls
open LfiRuntime.Mmap
open LfiRuntime.PagedMemory
open LfiRuntime.Runs

/-- The entry points of `runtime.S`. -/
structure Runtime where
  rtcallBad : Nat
  syscallEntry : Nat
  ret : Nat

/-- `sizeof(struct Sys)`. -/
def sizeofSys : Nat := 264

/-- What `sys_init` leaves in a `struct Sys`. -/
def sysInit (rt : Runtime) (ctx : Nat) : List UInt8 :=
  let rtcalls := List.replicate 32 rt.rtcallBad
  let rtcalls := (rtcalls.set 31 rt.syscallEntry).set 28 rt.ret
  leBytes 8 ctx ++ rtcalls.flatMap (leBytes 8)

/-- A box with its key, 0 where there are none, and where its callback table is mapped for
the host. -/
structure KeyedBox where
  box : LFIBox
  pkey : Nat
  table : Option Nat

/-- An engine and the host under it. `keys` are the protection keys that are allocated,
`keyOf` has the key of each page that is mapped. -/
structure World where
  map : BoxMap
  boxes : List KeyedBox
  keys : Finset Nat
  mem : Memory
  keyOf : Nat → Nat

/-- What the host answers to `lfi_box_new`. A key that is in use is not given out. -/
structure Answers where
  malloc : Bool
  pkeyAlloc : Option Nat
  mmap : Outcome
  protect : Outcome
  munmap : Outcome
  mutexInit : Bool
  mmapCreate : Bool
  seed : UInt64

namespace World

variable (e : Engine)

/-- `mmap` of anonymous memory at a fixed address. -/
def mmapAnon (s : World) (start len : Nat) (pr : Prot) : World :=
  { s with
    mem := s.mem.mmapFixed e.opts.pagesize start len pr .anon
    keyOf := fun p => if InSpan e.opts.pagesize start len p then 0 else s.keyOf p }

/-- `pkey_mprotect`. -/
def pkeyMprotect (s : World) (start len : Nat) (pr : Prot) (pkey : Nat) : World :=
  { s with
    mem := s.mem.mprotect e.opts.pagesize start len pr
    keyOf := fun p => if InSpan e.opts.pagesize start len p then pkey else s.keyOf p }

/-- `protectmem`. -/
def protectmem (s : World) (start len : Nat) (pr : Prot) (pkey : Nat) : World :=
  if e.target.pku then s.pkeyMprotect e start len pr pkey
  else { s with mem := s.mem.mprotect e.opts.pagesize start len pr }

/-- `munmap`. -/
def munmap (s : World) (start len : Nat) : World :=
  { s with mem := s.mem.munmap e.opts.pagesize start len }

/-- `boxmap_rmspace`. -/
def rmspace (s : World) (base : Nat) : World :=
  { s with map := boxmapRmspace s.map base (boxFootprint e.target e.opts.boxsize) }

/-- `pkey_free`, where there are keys. -/
def pkeyFree (s : World) (pkey : Nat) : World :=
  if e.target.pku then { s with keys := s.keys.erase pkey } else s

/-- `pkey_alloc`. -/
def pkeyAlloc (s : World) (a : Answers) : Option Nat :=
  a.pkeyAlloc.filter fun k => k ≠ 0 ∧ k ∉ s.keys

/-- The part of `lfi_box_new` that gets a key for the box, 0 where there are none. -/
def newKey (s : World) (a : Answers) (base : Nat) : Option (Nat × World) :=
  if e.target.pku then
    (s.pkeyAlloc a).map fun k =>
      (k, { s with keys := insert k s.keys }.pkeyMprotect e base e.opts.boxsize Prot.none k)
  else some (0, s)

/-- `sys_page_init` with no context, up to the protection of the page. -/
def sysPageInit (s : World) (rt : Runtime) (page : Nat) : World :=
  let ps := e.opts.pagesize
  { s with mem := s.mem.writeBytes ps (page + ps - sizeofSys) (sysInit rt 0) }

/-- `syssetup`. -/
def syssetup (s : World) (rt : Runtime) (a : Answers) (base pkey : Nat) : Bool × World :=
  let ps := e.opts.pagesize
  let page := base - ps
  if !mmapValid ps page ps (some .anon) then (false, s)
  else if !a.mmap.isOk then (false, s.munmap e page (a.mmap.extent ps ps))
  else
    let s := (s.mmapAnon e page ps Prot.readWrite).sysPageInit e rt page
    let s := s.protectmem e page (a.protect.extent ps ps) Prot.readOnly pkey
    if !a.protect.isOk then (false, s.munmap e page (a.munmap.extent ps ps))
    else (true, s)

/-- `mmap_create`, and `mmap_enable_aslr` unless the engine is without it. -/
def mmapCreate (a : Answers) (min max : Nat) : Option AddrSpace :=
  if a.mmapCreate then
    (AddrSpace.init min (max - min) e.opts.pagesize).map fun mm =>
      if e.opts.noAslr then mm else mm.enableAslr a.seed
  else none

/-- `lfi_box_new`. -/
def lfiBoxNew (s : World) (rt : Runtime) (a : Answers) : Option KeyedBox × World :=
  if !a.malloc then (none, s)
  else
    let size := e.opts.boxsize
    let space := boxmapAddspace s.map (boxFootprint e.target size)
    let base := space.1
    let s := { s with map := space.2 }
    if base = 0 then (none, s)
    else
      match s.newKey e a base with
      | none => (none, s.rmspace e base)
      | some (pkey, s) =>
        let minOff := max e.target.boxInternalGuard e.opts.pagesize
        let min := base + minOff
        let max := base + size - e.target.boxInternalGuard
        match s.syssetup e rt a base pkey with
        | (false, s) => (none, (s.pkeyFree e pkey).rmspace e base)
        | (true, s) =>
          if !a.mutexInit then (none, (s.pkeyFree e pkey).rmspace e base)
          else
            match mmapCreate e a min max with
            | none => (none, (s.pkeyFree e pkey).rmspace e base)
            | some mm =>
              let box : KeyedBox := ⟨⟨base, size, min, max, mm, 0⟩, pkey, none⟩
              (some box, { s with boxes := box :: s.boxes })

/-- `lfi_box_free`. The table of callbacks is `len` bytes long. -/
def lfiBoxFree (s : World) (b : KeyedBox) (len : Nat) : World :=
  let ps := e.opts.pagesize
  let s := s.mmapAnon e (b.box.base - ps) (b.box.size + ps) Prot.none
  let s :=
    match b.table with
    | none => s
    | some table => s.munmap e table len
  let boxes := s.boxes.eraseP fun b' => b.box.base == b'.box.base
  let s := { s.rmspace e b.box.base with boxes := boxes }
  if b.pkey = 0 then s else s.pkeyFree e b.pkey

end World

/-- What an address shows: its page with the key, and the byte with the cell it is kept in. -/
def World.shows (e : Engine) (s : World) (x : Nat) : Option (Page × Nat × UInt8 × Cell) :=
  (s.mem.pages (x / e.opts.pagesize)).map fun pg =>
    (pg, s.keyOf (x / e.opts.pagesize), s.mem.read e.opts.pagesize x, s.mem.cell e.opts.pagesize x)

/-- The engine has reserved the address. -/
def InReservation (map : BoxMap) (x : Nat) : Prop :=
  ∃ r ∈ map.regions, r.mapbase ≤ x ∧ x < r.mapbase + r.mapsize

/-- The allocator, the keys and what the engine has reserved are as before. -/
structure Traceless (e : Engine) (s s' : World) : Prop where
  map : s'.map = s.map
  keys : s'.keys = s.keys
  pages : ∀ x, InReservation s.map x → s'.shows e x = s.shows e x

/-- The byte at an address of a new runtime-call page, which ends at `base`. -/
def sysByte (rt : Runtime) (base x : Nat) : UInt8 :=
  patch (fun _ => 0) (base - sizeofSys) (sysInit rt 0) x

/-- The address that `boxmap_addspace` is going to give. -/
def World.nextBase (e : Engine) (s : World) : Nat :=
  (boxmapAddspace s.map (boxFootprint e.target e.opts.boxsize)).1

/-- The call ends before it has changed a page. -/
def EndsEarly (e : Engine) (s : World) (a : Answers) : Prop :=
  a.malloc = false ∨ s.nextBase e = 0 ∨ e.target.pku = true ∧ s.pkeyAlloc a = none

/-- The call gets through. -/
def GetsBox (e : Engine) (s : World) (a : Answers) : Prop :=
  ¬EndsEarly e s a ∧ a.mmap.isOk = true ∧ a.protect.isOk = true ∧ a.mutexInit = true ∧
    (World.mmapCreate e a (s.nextBase e + max e.target.boxInternalGuard e.opts.pagesize)
      (s.nextBase e + e.opts.boxsize - e.target.boxInternalGuard)).isSome

/-- Where there are keys, the space already is inaccessible under the key that the host
gives. -/
def SpaceStands (e : Engine) (s : World) (a : Answers) : Prop :=
  e.target.pku = true → ∀ x, InReservation s.map x → s.nextBase e ≤ x →
    x < s.nextBase e + e.opts.boxsize → ∀ pg k b, s.shows e x = some (pg, k, b) →
      pg.prot = Prot.none ∧ a.pkeyAlloc = some k

/-- What the call has in the end in the page before the space, once a host call has
reached that: nothing after a failed mapping or when the page is unmapped after a failed
protection, and else a runtime-call page, be it protected or not. -/
def lastPage (e : Engine) (rt : Runtime) (a : Answers) (pkey base x : Nat) :
    Option (Page × Nat × UInt8 × Cell) :=
  if a.mmap.isOk = false ∨ a.protect.isOk = false ∧ a.munmap.reaches = true then none
  else if a.protect.reaches then
    some (⟨Prot.readOnly, .priv⟩, if e.target.pku then pkey else 0, sysByte rt base x, .own x)
  else some (⟨Prot.readWrite, .priv⟩, 0, sysByte rt base x, .own x)

/-- The page before the space already is what the call makes of it, or it is not the
engine's. -/
def PageStands (e : Engine) (rt : Runtime) (s : World) (a : Answers) : Prop :=
  ∀ x, InReservation s.map x → s.nextBase e - e.opts.pagesize ≤ x → x < s.nextBase e →
    s.shows e x = lastPage e rt a (a.pkeyAlloc.getD 0) (s.nextBase e) x

/-- The failures that leave no trace: those before a host call reaches the runtime-call page,
and any that find things as they leave them. -/
def Harmless (e : Engine) (rt : Runtime) (s : World) (a : Answers) : Prop :=
  EndsEarly e s a ∨ SpaceStands e s a ∧ (a.mmap.reaches = false ∨ PageStands e rt s a)

section

variable {e : Engine} {rt : Runtime} {s s' : World} {a : Answers} {base start len pkey x : Nat}
  {pr : Prot}

/-! What an address shows after each call. -/

theorem inSpan_iff {ps : Nat} (hps : 0 < ps) (hstart : ps ∣ start) (hlen : ps ∣ len) :
    InSpan ps start len (x / ps) ↔ start ≤ x ∧ x < start + len := by
  constructor
  · exact mem_of_inSpan hstart hlen
  · rintro ⟨hlo, hhi⟩
    exact inSpan_of_mem hps hlo hhi

theorem shows_mmapAnon (x : Nat) : (s.mmapAnon e start len pr).shows e x =
    if InSpan e.opts.pagesize start len (x / e.opts.pagesize) then
      some (⟨pr, .priv⟩, 0, 0, .own x)
    else s.shows e x := by
  unfold World.shows World.mmapAnon
  simp only
  split
  · rename_i hin
    rw [Memory.read, Memory.cell_mmapFixed_anon hin]
    simp [Memory.mmapFixed, Memory.get, hin]
  · rename_i hout
    rw [Memory.read_mmapFixed_of_not hout, Memory.pages_mmapFixed_of_not hout,
      Memory.cell_mmapFixed_of_not hout]

theorem shows_mprotect (keyOf : Nat → Nat) (x : Nat) :
    World.shows e { s with mem := s.mem.mprotect e.opts.pagesize start len pr, keyOf := keyOf } x =
      (s.shows e x).map fun v =>
        (if InSpan e.opts.pagesize start len (x / e.opts.pagesize) then ⟨pr, v.1.backing⟩ else v.1,
          keyOf (x / e.opts.pagesize), v.2.2) := by
  have hpages : (s.mem.mprotect e.opts.pagesize start len pr).pages (x / e.opts.pagesize) =
      if InSpan e.opts.pagesize start len (x / e.opts.pagesize) then
        (s.mem.pages (x / e.opts.pagesize)).map fun pg => ⟨pr, pg.backing⟩
      else s.mem.pages (x / e.opts.pagesize) := rfl
  unfold World.shows
  simp only [Memory.read_mprotect, Memory.cell_mprotect, hpages]
  split <;> cases s.mem.pages (x / e.opts.pagesize) <;> simp

theorem shows_keyOf (x : Nat) : (s.shows e x).map
    (fun v => (v.1, s.keyOf (x / e.opts.pagesize), v.2.2)) = s.shows e x := by
  unfold World.shows
  cases s.mem.pages (x / e.opts.pagesize) <;> rfl

theorem shows_pkeyMprotect (x : Nat) : (s.pkeyMprotect e start len pr pkey).shows e x =
    if InSpan e.opts.pagesize start len (x / e.opts.pagesize) then
      (s.shows e x).map fun v => (⟨pr, v.1.backing⟩, pkey, v.2.2)
    else s.shows e x := by
  unfold World.pkeyMprotect
  rw [shows_mprotect]
  split
  · rfl
  · exact shows_keyOf x

theorem shows_munmap (x : Nat) : (s.munmap e start len).shows e x =
    if InSpan e.opts.pagesize start len (x / e.opts.pagesize) then none else s.shows e x := by
  unfold World.shows World.munmap
  simp only
  split
  · rename_i hin
    simp [Memory.munmap, hin]
  · rename_i hout
    rw [Memory.read_munmap_of_not hout, Memory.cell_munmap_of_not hout]
    simp [Memory.munmap, hout]

theorem shows_writeBytes {bs : List UInt8}
    (h : ∀ k, k < bs.length → s.mem.cell e.opts.pagesize (start + k) = .own (start + k))
    (x : Nat) :
    World.shows e { s with mem := s.mem.writeBytes e.opts.pagesize start bs } x =
      (s.shows e x).map fun v => (v.1, v.2.1, patch (fun _ => v.2.2.1) start bs x, v.2.2.2) := by
  have hpatch : ∀ F : Nat → UInt8, patch F start bs x = patch (fun _ => F x) start bs x :=
    fun F => rfl
  have hcell : (s.mem.writeBytes e.opts.pagesize start bs).cell e.opts.pagesize x =
      s.mem.cell e.opts.pagesize x := by
    rw [Memory.writeBytes_own h]
    rfl
  have hpriv : ∀ k, k < bs.length → s.mem.backing ((start + k) / e.opts.pagesize) = .priv :=
    fun k hk => Memory.backing_of_cell_own (h k hk)
  unfold World.shows
  simp only [Memory.pages_writeBytes, Memory.read_writeBytes hpriv, hcell,
    hpatch (s.mem.read _), Option.map_map]
  rfl

theorem length_sysInit (rt : Runtime) (ctx : Nat) : (sysInit rt ctx).length = sizeofSys := by
  simp [sysInit, sizeofSys]

/-- The page size of an engine, with the runtime-call page before an address. -/
structure PageBefore (e : Engine) (base : Nat) : Prop where
  room : sizeofSys ≤ e.opts.pagesize
  dvd : e.opts.pagesize ∣ base
  le : e.opts.pagesize ≤ base
  lt : base < 2 ^ 64

namespace PageBefore

variable (h : PageBefore e base)

include h

theorem pos : 0 < e.opts.pagesize := lt_of_lt_of_le (by decide) h.room

theorem inSpan_page : InSpan e.opts.pagesize (base - e.opts.pagesize) e.opts.pagesize
    (x / e.opts.pagesize) ↔ base - e.opts.pagesize ≤ x ∧ x < base := by
  rw [inSpan_iff h.pos (Nat.dvd_sub h.dvd (dvd_refl _)) (dvd_refl _), Nat.sub_add_cancel h.le]

theorem mmapValid : mmapValid e.opts.pagesize (base - e.opts.pagesize) e.opts.pagesize
    (some .anon) = true := by
  have hmod := Nat.mod_eq_zero_of_dvd (Nat.dvd_sub h.dvd (dvd_refl e.opts.pagesize))
  have hlt := h.lt
  simp only [HostCalls.mmapValid, h.pos, hmod, Nat.sub_add_cancel h.le, Nat.le_of_lt hlt]
  rfl

/-- The new page after `sys_page_init`, not yet protected. -/
theorem shows_sysPageInit (x : Nat) :
    ((s.mmapAnon e (base - e.opts.pagesize) e.opts.pagesize Prot.readWrite).sysPageInit e rt
        (base - e.opts.pagesize)).shows e x =
      if base - e.opts.pagesize ≤ x ∧ x < base then
        some (⟨Prot.readWrite, .priv⟩, 0, sysByte rt base x, .own x)
      else s.shows e x := by
  have hroom := h.room
  have hle := h.le
  have hstart : base - e.opts.pagesize + e.opts.pagesize - sizeofSys = base - sizeofSys := by omega
  unfold World.sysPageInit
  simp only [hstart]
  rw [shows_writeBytes, shows_mmapAnon]
  · simp only [h.inSpan_page]
    split
    · rfl
    · rename_i hout
      cases hx : s.shows e x with
      | none => rfl
      | some v =>
          have hpatch : patch (fun _ => v.2.2.1) (base - sizeofSys) (sysInit rt 0) x = v.2.2.1 := by
            apply patch_of_not
            rw [length_sysInit]
            omega
          rw [Option.map_some, hpatch]
  · intro k hk
    rw [length_sysInit] at hk
    have hin : InSpan e.opts.pagesize (base - e.opts.pagesize) e.opts.pagesize
        ((base - sizeofSys + k) / e.opts.pagesize) := h.inSpan_page.mpr (by omega)
    exact Memory.cell_mmapFixed_anon hin

/-- The page is in the span of a call that reaches it. -/
theorem inSpan_extent (o : Outcome) :
    InSpan e.opts.pagesize (base - e.opts.pagesize) (o.extent e.opts.pagesize e.opts.pagesize)
        (x / e.opts.pagesize) ↔
      o.reaches = true ∧ base - e.opts.pagesize ≤ x ∧ x < base := by
  rw [Outcome.extent_page]
  split
  · rename_i hreach
    rw [h.inSpan_page]
    simp [hreach]
  · rename_i hreach
    rw [inSpan_iff h.pos (Nat.dvd_sub h.dvd (dvd_refl _)) (dvd_zero _)]
    exact iff_of_false (by omega) fun hand => hreach hand.1

theorem shows_protectmem (o : Outcome) (x : Nat) :
    (s.protectmem e (base - e.opts.pagesize) (o.extent e.opts.pagesize e.opts.pagesize) pr
        pkey).shows e x =
      if o.reaches = true ∧ base - e.opts.pagesize ≤ x ∧ x < base then
        (s.shows e x).map fun v => (⟨pr, v.1.backing⟩, if e.target.pku then pkey else v.2.1, v.2.2)
      else s.shows e x := by
  unfold World.protectmem
  split
  · rw [shows_pkeyMprotect]
    simp only [h.inSpan_extent]
  · rename_i hpku
    rw [shows_mprotect]
    simp only [h.inSpan_extent]
    split
    · unfold World.shows
      cases s.mem.pages (x / e.opts.pagesize) <;> simp
    · exact shows_keyOf x

end PageBefore

/-- What `syssetup` makes of the page, and that it changes nothing else. -/
structure SetUp (e : Engine) (rt : Runtime) (a : Answers) (s : World) (base pkey : Nat)
    (s' : World) : Prop where
  map : s'.map = s.map
  keys : s'.keys = s.keys
  boxes : s'.boxes = s.boxes
  shows : ∀ x, s'.shows e x =
    if a.mmap.reaches = true ∧ base - e.opts.pagesize ≤ x ∧ x < base then
      lastPage e rt a pkey base x
    else s.shows e x

theorem protectmem_rest : (s.protectmem e start len pr pkey).map = s.map ∧
    (s.protectmem e start len pr pkey).keys = s.keys ∧
    (s.protectmem e start len pr pkey).boxes = s.boxes := by
  unfold World.protectmem
  split <;> exact ⟨rfl, rfl, rfl⟩

theorem sysPageInit_rest (page len : Nat) :
    ((s.mmapAnon e page len pr).sysPageInit e rt page).map = s.map ∧
      ((s.mmapAnon e page len pr).sysPageInit e rt page).keys = s.keys ∧
      ((s.mmapAnon e page len pr).sysPageInit e rt page).boxes = s.boxes := by
  simp only [World.sysPageInit, World.mmapAnon, and_self]

theorem syssetup_spec (h : PageBefore e base) (rt : Runtime) (s : World) (a : Answers)
    (pkey : Nat) :
    ∃ s', s.syssetup e rt a base pkey = (a.mmap.isOk && a.protect.isOk, s') ∧
      SetUp e rt a s base pkey s' := by
  unfold World.syssetup
  simp only [h.mmapValid, Bool.not_true, Bool.false_eq_true, if_false]
  cases hmmap : a.mmap.isOk with
  | false =>
      refine ⟨_, rfl, rfl, rfl, rfl, fun x => ?_⟩
      simp only [shows_munmap, h.inSpan_extent, lastPage, hmmap, true_or, if_true]
  | true =>
      simp only [Bool.not_true, Bool.false_eq_true, if_false, Bool.true_and]
      have hreach : a.mmap.reaches = true := Outcome.reaches_of_isOk hmmap
      have hshows := @PageBefore.shows_sysPageInit e rt s base h
      obtain ⟨hmap, hkeys, hboxes⟩ := @sysPageInit_rest e rt s Prot.readWrite
        (base - e.opts.pagesize) e.opts.pagesize
      generalize (s.mmapAnon e (base - e.opts.pagesize) e.opts.pagesize Prot.readWrite).sysPageInit e
        rt (base - e.opts.pagesize) = s₁ at hshows hmap hkeys hboxes ⊢
      have hprotected := @PageBefore.shows_protectmem e s₁ base pkey Prot.readOnly h a.protect
      obtain ⟨hmap', hkeys', hboxes'⟩ := @protectmem_rest e s₁ (base - e.opts.pagesize)
        (a.protect.extent e.opts.pagesize e.opts.pagesize) pkey Prot.readOnly
      generalize s₁.protectmem e _ _ _ _ = s₂ at hprotected hmap' hkeys' hboxes' ⊢
      cases hprotect : a.protect.isOk with
      | true =>
          refine ⟨_, rfl, hmap'.trans hmap, hkeys'.trans hkeys, hboxes'.trans hboxes, fun x => ?_⟩
          simp only [hprotected, hshows, lastPage, hmmap, hprotect, hreach,
            Outcome.reaches_of_isOk hprotect, true_and, Bool.true_eq_false, false_and, or_self,
            if_false, if_true]
          split <;> simp
      | false =>
          refine ⟨_, rfl, hmap'.trans hmap, hkeys'.trans hkeys, hboxes'.trans hboxes, fun x => ?_⟩
          rw [shows_munmap]
          simp only [h.inSpan_extent, hprotected, hshows, lastPage, hmmap, hprotect, hreach,
            true_and, Bool.true_eq_false, false_or]
          by_cases hin : base - e.opts.pagesize ≤ x ∧ x < base
          · cases a.munmap.reaches <;> cases a.protect.reaches <;> simp [hin]
          · simp only [hin, and_false, if_false]

/-- What `lfi_box_new` does for a key: the space gets inaccessible under it. -/
structure Keyed (e : Engine) (a : Answers) (s : World) (base pkey : Nat) (s' : World) : Prop where
  map : s'.map = s.map
  boxes : s'.boxes = s.boxes
  keys : (if e.target.pku then s'.keys.erase pkey else s'.keys) = s.keys
  alloc : e.target.pku = true → s.pkeyAlloc a = some pkey
  shows : ∀ x, s'.shows e x =
    if e.target.pku = true ∧ base ≤ x ∧ x < base + e.opts.boxsize then
      (s.shows e x).map fun v => (⟨Prot.none, v.1.backing⟩, pkey, v.2.2)
    else s.shows e x

theorem Keyed.given {pkey : Nat} (h : Keyed e a s base pkey s') (hpku : e.target.pku = true) :
    a.pkeyAlloc = some pkey :=
  (Option.filter_eq_some_iff.mp (h.alloc hpku)).1

/-- The key of the last page is the one that has been got. -/
theorem Keyed.lastPage_eq {pkey : Nat} (h : Keyed e a s base pkey s') (rt : Runtime)
    (base x : Nat) : lastPage e rt a (a.pkeyAlloc.getD 0) base x = lastPage e rt a pkey base x := by
  unfold lastPage
  cases hpku : e.target.pku with
  | false => rfl
  | true => rw [h.given hpku, Option.getD_some]

theorem newKey_cases (h : PageBefore e base) (hsize : e.opts.pagesize ∣ e.opts.boxsize)
    (s : World) (a : Answers) :
    (e.target.pku = true ∧ s.pkeyAlloc a = none ∧ s.newKey e a base = none) ∨
      ¬(e.target.pku = true ∧ s.pkeyAlloc a = none) ∧ ∃ pkey s',
        s.newKey e a base = some (pkey, s') ∧ Keyed e a s base pkey s' := by
  unfold World.newKey
  cases hpku : e.target.pku with
  | false =>
      refine .inr ⟨by simp, 0, s, rfl, rfl, rfl, by simp [hpku], by simp [hpku], fun x => ?_⟩
      rw [hpku, if_neg (by simp)]
  | true =>
      simp only [if_true]
      cases hk : s.pkeyAlloc a with
      | none => exact .inl ⟨trivial, rfl, rfl⟩
      | some k =>
          obtain ⟨-, hfresh⟩ := Option.filter_eq_some_iff.mp hk
          have hnew : k ∉ s.keys := (of_decide_eq_true hfresh).2
          refine .inr ⟨by simp, k, _, rfl, rfl, rfl, ?_, fun _ => hk, fun x => ?_⟩
          · rw [hpku, if_pos rfl]
            exact Finset.erase_insert hnew
          · rw [shows_pkeyMprotect]
            simp only [inSpan_iff h.pos h.dvd hsize, hpku, true_and]
            rfl

/-- A failed call: what it has changed, and what it has found. -/
inductive Failed (e : Engine) (rt : Runtime) (a : Answers) (s : World) : World → Prop
  | early {s' : World} (hearly : EndsEarly e s a) (hmap : s'.map = s.map) (hkeys : s'.keys = s.keys)
      (hboxes : s'.boxes = s.boxes) (hshows : s'.shows e = s.shows e) : Failed e rt a s s'
  | late {s' s₁ : World} {pkey : Nat} (hlate : ¬EndsEarly e s a) (hmap : s'.map = s.map)
      (hkeys : s'.keys = s.keys) (hboxes : s'.boxes = s.boxes)
      (hkeyed : Keyed e a s (s.nextBase e) pkey s₁)
      (hpage : ∀ x, s'.shows e x =
        if a.mmap.reaches = true ∧ s.nextBase e - e.opts.pagesize ≤ x ∧ x < s.nextBase e then
          lastPage e rt a (a.pkeyAlloc.getD 0) (s.nextBase e) x
        else s₁.shows e x) : Failed e rt a s s'

/-- An engine with live spaces, which the system's pages divide. -/
structure Sane (e : Engine) (live : List Space) (s : World) : Prop where
  inv : ∃ spans, spans.Pairwise Space.Disjoint ∧ Inv (gb 4) spans ⟨s.map, live⟩
  footprint : ValidSize (gb 4) (boxFootprint e.target e.opts.boxsize)
  boxsize : gb 4 ∣ e.opts.boxsize
  page : e.opts.pagesize ∣ gb 4
  room : sizeofSys ≤ e.opts.pagesize

theorem Sane.pageBefore {live : List Space} (h : Sane e live s) (hne : s.nextBase e ≠ 0) :
    PageBefore e (s.nextBase e) := by
  obtain ⟨spans, hdis, hinv⟩ := h.inv
  obtain ⟨hdvd, hlt⟩ := hinv.addspace_base hdis h.footprint hne
  have hdvd' := h.page.trans hdvd
  exact ⟨h.room, hdvd', Nat.le_of_dvd (Nat.pos_of_ne_zero hne) hdvd',
    lt_of_le_of_lt (Nat.le_add_right _ _) hlt⟩

theorem undo_spec (e : Engine) (s : World) (pkey base : Nat) :
    ((s.pkeyFree e pkey).rmspace e base).map =
        boxmapRmspace s.map base (boxFootprint e.target e.opts.boxsize) ∧
      ((s.pkeyFree e pkey).rmspace e base).keys =
        (if e.target.pku then s.keys.erase pkey else s.keys) ∧
      ((s.pkeyFree e pkey).rmspace e base).boxes = s.boxes ∧
      ((s.pkeyFree e pkey).rmspace e base).shows e = s.shows e := by
  unfold World.pkeyFree
  split <;> exact ⟨rfl, rfl, rfl, rfl⟩

/-- Every failure once a key has been got ends alike. -/
theorem failed_undo {map : BoxMap} {s₁ s₂ : World} {pkey : Nat} (hlate : ¬EndsEarly e s a)
    (hkeyed : Keyed e a { s with map := map } (s.nextBase e) pkey s₁)
    (hrestore :
      boxmapRmspace map (s.nextBase e) (boxFootprint e.target e.opts.boxsize) = s.map)
    (hset : SetUp e rt a s₁ (s.nextBase e) pkey s₂) :
    Failed e rt a s ((s₂.pkeyFree e pkey).rmspace e (s.nextBase e)) := by
  obtain ⟨hmap, hkeys, hboxes, hshows⟩ := undo_spec e s₂ pkey (s.nextBase e)
  refine @Failed.late _ _ _ _ _ { s₁ with map := s.map } pkey hlate ?_ ?_
    (hboxes.trans (hset.boxes.trans hkeyed.boxes))
    ⟨rfl, hkeyed.boxes, hkeyed.keys, hkeyed.alloc, hkeyed.shows⟩ fun x => ?_
  · rw [hmap, hset.map, hkeyed.map]
    exact hrestore
  · rw [hkeys, hset.keys]
    exact hkeyed.keys
  · rw [hshows, hset.shows, hkeyed.lastPage_eq]
    rfl

/-- What a call that gets through has made. -/
structure Made (e : Engine) (s : World) (b : KeyedBox) (s' : World) : Prop where
  ne : s.nextBase e ≠ 0
  base : b.box.base = s.nextBase e
  size : b.box.size = e.opts.boxsize
  table : b.table = none
  map : s'.map = (boxmapAddspace s.map (boxFootprint e.target e.opts.boxsize)).2
  boxes : s'.boxes = b :: s.boxes
  key : e.target.pku = true → b.pkey ≠ 0
  keys : (if e.target.pku then s'.keys.erase b.pkey else s'.keys) = s.keys
  shows : ∀ x, ¬(s.nextBase e - e.opts.pagesize ≤ x ∧ x < s.nextBase e + e.opts.boxsize) →
    s'.shows e x = s.shows e x

theorem lfiBoxNew_cases {live : List Space} (h : Sane e live s) (rt : Runtime) (a : Answers) :
    (∃ s', s.lfiBoxNew e rt a = (none, s') ∧ ¬GetsBox e s a ∧ Failed e rt a s s') ∨
      ∃ b s', s.lfiBoxNew e rt a = (some b, s') ∧ GetsBox e s a ∧ Made e s b s' := by
  obtain ⟨spans, hdis, hinv⟩ := h.inv
  have hearly : EndsEarly e s a → ¬GetsBox e s a := fun hends hgets => hgets.1 hends
  unfold World.lfiBoxNew
  simp only
  split
  · rename_i hmalloc
    have hends : EndsEarly e s a := .inl (by simpa using hmalloc)
    exact .inl ⟨_, rfl, hearly hends, .early hends rfl rfl rfl rfl⟩
  rename_i hmalloc
  split
  · rename_i hzero
    have hends : EndsEarly e s a := .inr (.inl hzero)
    exact .inl ⟨_, rfl, hearly hends,
      .early hends (hinv.addspace_full h.footprint hzero) rfl rfl rfl⟩
  rename_i hne
  have hpage := h.pageBefore hne
  have hrestore := hinv.rmspace_addspace hdis h.footprint hne
  rcases newKey_cases hpage (h.page.trans h.boxsize)
      { s with map := (boxmapAddspace s.map (boxFootprint e.target e.opts.boxsize)).2 } a with
    ⟨hpku, hnokey, heq⟩ | ⟨hkey, pkey, s₁, heq, hkeyed⟩
  · rw [World.nextBase] at heq
    rw [heq]
    have hends : EndsEarly e s a := .inr (.inr ⟨hpku, hnokey⟩)
    exact .inl ⟨_, rfl, hearly hends, .early hends hrestore rfl rfl rfl⟩
  rw [World.nextBase] at heq
  rw [heq]
  simp only
  have hlate : ¬EndsEarly e s a := by
    rintro (hearly | hearly | hearly)
    · exact hmalloc (by simpa using hearly)
    · exact hne hearly
    · exact hkey hearly
  obtain ⟨s₂, hsetup, hset⟩ := syssetup_spec hpage rt s₁ a pkey
  have hend := failed_undo hlate hkeyed hrestore hset
  rw [World.nextBase] at hsetup
  rw [hsetup]
  cases hok : a.mmap.isOk && a.protect.isOk with
  | false =>
      refine .inl ⟨_, rfl, fun hgets => ?_, hend⟩
      rw [hgets.2.1, hgets.2.2.1] at hok
      cases hok
  | true =>
      obtain ⟨hmmap, hprotect⟩ := Bool.and_eq_true_iff.mp hok
      simp only
      cases hmutex : a.mutexInit with
      | false =>
          refine .inl ⟨_, rfl, fun hgets => ?_, hend⟩
          rw [hgets.2.2.2.1] at hmutex
          cases hmutex
      | true =>
          cases hcreate : World.mmapCreate e a
              (s.nextBase e + max e.target.boxInternalGuard e.opts.pagesize)
              (s.nextBase e + e.opts.boxsize - e.target.boxInternalGuard) with
          | none =>
              rw [World.nextBase] at hcreate
              rw [hcreate]
              refine .inl ⟨_, rfl, fun hgets => ?_, hend⟩
              have hsome := hgets.2.2.2.2
              rw [World.nextBase, hcreate] at hsome
              cases hsome
          | some mm =>
              have hgets : GetsBox e s a :=
                ⟨hlate, hmmap, hprotect, hmutex, by rw [hcreate]; rfl⟩
              rw [World.nextBase] at hcreate
              rw [hcreate]
              refine .inr ⟨_, _, rfl, hgets, hne, rfl, rfl, rfl, hset.map.trans hkeyed.map, ?_, ?_,
                ?_, fun x hx => ?_⟩
              · simp only [hset.boxes, hkeyed.boxes]
              · intro hpku
                have hgiven := Option.filter_eq_some_iff.mp (hkeyed.alloc hpku)
                exact (of_decide_eq_true hgiven.2).1
              · simp only [hset.keys]
                exact hkeyed.keys
              · have hshows := hset.shows x
                rw [if_neg (by omega), hkeyed.shows, if_neg (by omega)] at hshows
                exact hshows

theorem lfiBoxNew_none {live : List Space} (h : Sane e live s)
    (hnone : s.lfiBoxNew e rt a = (none, s')) : Failed e rt a s s' := by
  rcases lfiBoxNew_cases h rt a with ⟨s₁, heq, -, hfailed⟩ | ⟨b, s₁, heq, -, -⟩
  · obtain rfl := (Prod.mk.inj (hnone.symm.trans heq)).2
    exact hfailed
  · cases hnone.symm.trans heq

theorem Keyed.stands_iff {pkey : Nat} (h : Keyed e a s (s.nextBase e) pkey s') :
    (∀ x, InReservation s.map x → s'.shows e x = s.shows e x) ↔ SpaceStands e s a := by
  constructor
  · intro hsame hpku x hx hlo hhi pg k b hshows
    have heq := hsame x hx
    rw [h.shows, if_pos ⟨hpku, hlo, hhi⟩, hshows, Option.map_some, Option.some.injEq] at heq
    obtain ⟨hpg, hrest⟩ := Prod.mk.inj heq
    obtain ⟨rfl, -⟩ := Prod.mk.inj hrest
    exact ⟨by rw [← hpg], h.given hpku⟩
  · intro hstands x hx
    rw [h.shows]
    split
    · rename_i hin
      obtain ⟨hpku, hlo, hhi⟩ := hin
      rcases hshows : s.shows e x with _ | ⟨pg, k, b⟩
      · rfl
      · obtain ⟨hprot, hkey⟩ := hstands hpku x hx hlo hhi pg k b hshows
        have heq : k = pkey := Option.some.inj (hkey.symm.trans (h.given hpku))
        rw [Option.map_some, heq, ← hprot]
    · rfl

theorem Failed.traceless_iff (h : Failed e rt a s s') : Traceless e s s' ↔ Harmless e rt s a := by
  rcases h with ⟨hearly, hmap, hkeys, -, hshows⟩ | ⟨hlate, hmap, hkeys, -, hkeyed, hpage⟩
  · exact ⟨fun _ => .inl hearly, fun _ => ⟨hmap, hkeys, fun x _ => congrFun hshows x⟩⟩
  -- the page lies before the space
  rename_i s₁ pkey
  have hbefore : ∀ x, x < s.nextBase e → s₁.shows e x = s.shows e x := by
    intro x hlt
    have hx := hkeyed.shows x
    rw [if_neg (by omega)] at hx
    exact hx
  constructor
  · intro htrace
    refine .inr ⟨hkeyed.stands_iff.mp fun x hx => ?_, ?_⟩
    · have heq := htrace.pages x hx
      rw [hpage] at heq
      split at heq
      · rename_i hin
        exact hbefore x hin.2.2
      · exact heq
    · cases hreach : a.mmap.reaches with
      | false => exact .inl rfl
      | true =>
          refine .inr fun x hx hlo hhi => ?_
          have heq := htrace.pages x hx
          rw [hpage, if_pos ⟨hreach, hlo, hhi⟩] at heq
          exact heq.symm
  · intro hharmless
    obtain ⟨hspace, hstands⟩ := hharmless.resolve_left hlate
    refine ⟨hmap, hkeys, fun x hx => ?_⟩
    rw [hpage]
    split
    · rename_i hin
      have hstands := hstands.resolve_left (by simp [hin.1])
      exact (hstands x hx hin.2.1 hin.2.2).symm
    · exact hkeyed.stands_iff.mpr hspace x hx

end

/-! Runs. -/

/-- What happens on an engine. The boxes' own calls and the rest of the process change
memory, keys and what a box records, but no base. -/
inductive Op
  | new (a : Answers)
  | free (b : KeyedBox) (len : Nat)
  | others (boxes : List KeyedBox) (keys : Finset Nat) (mem : Memory) (keyOf : Nat → Nat)

def World.bases (s : World) : List Nat := s.boxes.map fun b => b.box.base

/-- Only a live box is freed. -/
def Step (e : Engine) (rt : Runtime) (s : World) (op : Op) (s' : World) : Prop :=
  match op with
  | .new a => s' = (s.lfiBoxNew e rt a).2
  | .free b len => b ∈ s.boxes ∧ s' = s.lfiBoxFree e b len
  | .others boxes keys mem keyOf =>
    boxes.map (fun b => b.box.base) = s.bases ∧
      s' = { s with boxes := boxes, keys := keys, mem := mem, keyOf := keyOf }

section

variable {e : Engine} {rt : Runtime} {s s' : World} {a : Answers} {b : KeyedBox}

/-- A box that has been made is one more space of the engine. -/
theorem lfiBoxNew_some {live : List Space} (h : Sane e live s)
    (hsome : s.lfiBoxNew e rt a = (some b, s')) : Made e s b s' := by
  rcases lfiBoxNew_cases h rt a with ⟨s₁, heq, -, -⟩ | ⟨b₁, s₁, heq, -, hmade⟩
  · cases hsome.symm.trans heq
  · obtain ⟨hb, hs⟩ := Prod.mk.inj (hsome.symm.trans heq)
    obtain rfl := Option.some.inj hb
    rwa [hs]

theorem Made.bases (h : Made e s b s') : s'.bases = s.nextBase e :: s.bases := by
  rw [World.bases, h.boxes, List.map_cons, h.base]
  rfl

theorem lfiBoxFree_rest (e : Engine) (s : World) (b : KeyedBox) (len : Nat) :
    (s.lfiBoxFree e b len).map =
        boxmapRmspace s.map b.box.base (boxFootprint e.target e.opts.boxsize) ∧
      (s.lfiBoxFree e b len).bases = s.bases.erase b.box.base := by
  have herase : (s.boxes.eraseP fun b' => b.box.base == b'.box.base).map (fun b' => b'.box.base) =
      s.bases.erase b.box.base := by
    rw [World.bases, List.erase_eq_eraseP, List.eraseP_map]
    rfl
  unfold World.lfiBoxFree World.pkeyFree
  cases b.table with
  | none =>
      simp only
      split
      · exact ⟨rfl, herase⟩
      · split <;> exact ⟨rfl, herase⟩
  | some table =>
      simp only
      split
      · exact ⟨rfl, herase⟩
      · split <;> exact ⟨rfl, herase⟩

/-- The live boxes are what the allocator records. -/
def EngineSane (e : Engine) (s : World) : Prop :=
  Sane e (spaces (boxFootprint e.target e.opts.boxsize) s.bases) s

theorem step_sane {op : Op} (h : EngineSane e s) (hstep : Step e rt s op s') : EngineSane e s' := by
  obtain ⟨spans, hdis, hinv⟩ := h.inv
  cases op with
  | new a =>
      obtain rfl := hstep
      rcases hnew : s.lfiBoxNew e rt a with ⟨_ | b, s'⟩
      · rcases lfiBoxNew_none h hnew with ⟨-, hmap, -, hboxes, -⟩ | ⟨-, hmap, -, hboxes, -, -⟩
        · refine ⟨⟨spans, hdis, ?_⟩, h.footprint, h.boxsize, h.page, h.room⟩
          rw [World.bases, hboxes, hmap]
          exact hinv
        · refine ⟨⟨spans, hdis, ?_⟩, h.footprint, h.boxsize, h.page, h.room⟩
          rw [World.bases, hboxes, hmap]
          exact hinv
      · have hmade := lfiBoxNew_some h hnew
        have hadd := hinv.addspace hdis h.footprint
        simp only [Boxmap.apply] at hadd
        have hne' : (boxmapAddspace s.map (boxFootprint e.target e.opts.boxsize)).1 ≠ 0 := hmade.ne
        rw [if_neg hne'] at hadd
        refine ⟨⟨spans, hdis, ?_⟩, h.footprint, h.boxsize, h.page, h.room⟩
        rw [hmade.bases, hmade.map]
        exact hadd
  | free b len =>
      obtain ⟨hmem, rfl⟩ := hstep
      obtain ⟨hmap, hbases⟩ := lfiBoxFree_rest e s b len
      have hlive : b.box.base ∈ s.bases := List.mem_map_of_mem hmem
      have hrm := hinv.rmspace hdis b.box.base (boxFootprint e.target e.opts.boxsize)
        (List.mem_map_of_mem hlive)
      simp only [Boxmap.apply, ← spaces_erase] at hrm
      refine ⟨⟨spans, hdis, ?_⟩, h.footprint, h.boxsize, h.page, h.room⟩
      rw [hbases, hmap]
      exact hrm
  | others boxes keys mem keyOf =>
      obtain ⟨hbases, rfl⟩ := hstep
      refine ⟨⟨spans, hdis, ?_⟩, h.footprint, h.boxsize, h.page, h.room⟩
      simp only [World.bases] at hbases ⊢
      rw [hbases]
      exact hinv

/-- An engine right after `lfi_new`. The size of a box is a positive multiple of 4 GiB, that
of a page is the system's, and all the boxes asked for fit the address space. -/
structure Start (e : Engine) (n : Nat) (s : World) : Prop where
  target : e.target ∈ all
  boxsize : gb 4 ∣ e.opts.boxsize ∧ 0 < e.opts.boxsize
  page : e.opts.pagesize ∣ gb 4 ∧ sizeofSys ≤ e.opts.pagesize
  wrap : n * boxFootprint e.target e.opts.boxsize + gb 4 + e.target.regionGuard * 2 < 2 ^ 64
  fits : boxFootprint e.target e.opts.boxsize < 2 ^ 64
  reserved : ∃ h, lfiNew e.target e.opts.boxsize n h = some s.map
  boxes : s.boxes = []

theorem Start.sane {n : Nat} (h : Start e n s) : EngineSane e s := by
  obtain ⟨host, hnew⟩ := h.reserved
  have hext : ∀ t ∈ all, gb 4 ∣ t.boxExternalGuard := by decide
  have hfp : gb 4 ∣ boxFootprint e.target e.opts.boxsize :=
    dvd_add h.boxsize.1 (hext e.target h.target)
  obtain ⟨hres, hchunk⟩ := lfiNew_reserved hfp h.wrap hnew
  refine ⟨⟨s.map.regions.map AddrRegion.space, hres.disjoint, ?_⟩,
    ⟨Nat.add_pos_left h.boxsize.2 _, hfp, h.fits⟩, h.boxsize.1, h.page.1, h.page.2⟩
  rw [World.bases, h.boxes]
  exact hchunk ▸ hres.inv

/-- In every state of an engine, a failed `lfi_box_new` leaves no trace if and only if it
fails before a host call reaches the runtime-call page, or finds things as it leaves them. -/
theorem failed_boxNew_traceless_iff {n : Nat} {s₀ : World} (hstart : Start e n s₀)
    (hrun : Reaches (Step e rt) anyStep s₀ s) (hfailed : s.lfiBoxNew e rt a = (none, s')) :
    Traceless e s s' ↔ Harmless e rt s a := by
  have hsane := hrun.invariant hstart.sane fun _ _ _ h _ hstep => step_sane h hstep
  exact (lfiBoxNew_none hsane hfailed).traceless_iff

end

def smallEngine : Engine := ⟨x64, ⟨4096, gb 4, true, false, true⟩, fun _ _ => true⟩

def smallHost : Boxmap.Host := ⟨[some 0x7f0000001000], []⟩

/-- An engine for one box, before its first. -/
def smallWorld : World where
  map := (lfiNew x64 (gb 4) 1 smallHost).getD (boxmapNew ⟨gb 4, gb 4⟩)
  boxes := []
  keys := ∅
  mem :=
    { pages := fun _ => some ⟨Prot.none, .priv⟩
      priv := fun _ => 0
      files := fun _ _ => 0 }
  keyOf _ := 0

theorem smallWorld_start : Start smallEngine 1 smallWorld where
  target := by decide
  boxsize := by decide
  page := by decide
  wrap := by decide
  fits := by decide
  reserved := ⟨smallHost, by decide⟩
  boxes := rfl

def entries : Runtime := ⟨0x1000, 0x2000, 0x3000⟩

/-- The host does what it is asked to, but for two calls. -/
def hostAnswers (mmap : Outcome) (mutexInit : Bool) : Answers :=
  ⟨true, none, mmap, .ok, .ok, mutexInit, true, 0⟩

theorem failed_mmap_traceless : Traceless smallEngine smallWorld
    (smallWorld.lfiBoxNew smallEngine entries (hostAnswers (.fail 0) true)).2 := by
  have hnone : (smallWorld.lfiBoxNew smallEngine entries (hostAnswers (.fail 0) true)).1 = none := by
    decide
  refine (failed_boxNew_traceless_iff smallWorld_start (.refl _) (Prod.ext hnone rfl)).mpr ?_
  exact .inr ⟨fun hpku => (by cases hpku), .inl rfl⟩

/-- After a failed `pthread_mutex_init` the page before the space is a runtime-call page,
where nothing was accessible. -/
theorem failed_mutexInit_leaves_page :
    let s' := (smallWorld.lfiBoxNew smallEngine entries (hostAnswers .ok false)).2
    smallWorld.lfiBoxNew smallEngine entries (hostAnswers .ok false) = (none, s') ∧
      InReservation smallWorld.map 0x7f01fffff000 ∧
      smallWorld.shows smallEngine 0x7f01fffff000 =
        some (⟨Prot.none, .priv⟩, 0, 0, .own 0x7f01fffff000) ∧
      s'.shows smallEngine 0x7f01fffff000 =
        some (⟨Prot.readOnly, .priv⟩, 0, 0, .own 0x7f01fffff000) ∧
      ¬Traceless smallEngine smallWorld s' := by
  intro s'
  have hnone : (smallWorld.lfiBoxNew smallEngine entries (hostAnswers .ok false)).1 = none := by
    decide
  have hres : InReservation smallWorld.map 0x7f01fffff000 := by
    unfold InReservation
    decide
  have hbefore : smallWorld.shows smallEngine 0x7f01fffff000 =
      some (⟨Prot.none, .priv⟩, 0, 0, .own 0x7f01fffff000) := rfl
  have hafter : s'.shows smallEngine 0x7f01fffff000 =
      some (⟨Prot.readOnly, .priv⟩, 0, 0, .own 0x7f01fffff000) := by
    decide +kernel
  refine ⟨Prod.ext hnone rfl, hres, hbefore, hafter, fun htrace => ?_⟩
  have hsame := htrace.pages _ hres
  rw [hbefore, hafter] at hsame
  exact absurd hsame (by decide)

end LfiRuntime.BoxNew
