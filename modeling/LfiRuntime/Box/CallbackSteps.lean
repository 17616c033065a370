import LfiRuntime.Box.CallbackRuns
import LfiRuntime.Box.EngineRuns
import LfiRuntime.Box.EntryTable

/-!
What `callback.c` does is a step of the engine: it stays in the box, in the alias of the
table and in its file.
-/

namespace LfiRuntime.EngineRuns

open LfiRuntime.Box
open LfiRuntime.BoxNew
open LfiRuntime.Boxmap
open LfiRuntime.Callbacks
open LfiRuntime.Config
open LfiRuntime.HostCalls
open LfiRuntime.Mmap
open LfiRuntime.PagedMemory

/-- At these addresses nothing changes but what files show. -/
structure Beside (ps : Nat) (P : Nat → Prop) (m m' : Memory) : Prop where
  pages : ∀ x, P x → m'.pages (x / ps) = m.pages (x / ps)
  own : ∀ x, P x → m.cell ps x = .own x → m'.cell ps x = .own x ∧ m'.read ps x = m.read ps x

/-- The box is what it was, and so is the memory at these addresses. -/
structure Worked (e : Engine) (r : Region) (P : Nat → Prop) (box : LFIBox) (m : Memory)
    (box' : LFIBox) (m' : Memory) : Prop where
  box_eq : ∃ mm, box' = { box with mm := mm }
  works : Works e r box'
  beside : Beside e.opts.pagesize P m m'

/-- The addresses are not in the box. -/
def OutOf (P : Nat → Prop) (box : LFIBox) : Prop := ∀ x, P x → ¬(box.min ≤ x ∧ x < box.max)

section

variable {e : Engine} {r : Region} {P : Nat → Prop} {box box' box'' : LFIBox} {h : HostCalls.Host}
  {m m' m'' : Memory} {ps start len : Nat} {s : Callbacks.State} {a : Callbacks.Answers}

namespace Beside

theorem refl (m : Memory) : Beside ps P m m := ⟨fun _ _ => rfl, fun _ _ hown => ⟨hown, rfl⟩⟩

theorem trans (hb : Beside ps P m m') (hb' : Beside ps P m' m'') : Beside ps P m m'' := by
  refine ⟨fun x hx => (hb'.pages x hx).trans (hb.pages x hx), fun x hx hown => ?_⟩
  obtain ⟨hown', hread⟩ := hb.own x hx hown
  obtain ⟨hown'', hread'⟩ := hb'.own x hx hown'
  exact ⟨hown'', hread'.trans hread⟩

theorem of_confined (hc : Confined ps start len m m')
    (hout : ∀ x, P x → ¬InSpan ps start len (x / ps)) : Beside ps P m m' :=
  ⟨fun x hx => hc.pages _ (hout x hx), fun x hx => hc.own x (hout x hx)⟩

theorem newFile (m : Memory) (fd : Int) : Beside ps P m (newFile m fd) := by
  refine ⟨fun _ _ => rfl, fun x _ hown => ?_⟩
  have hown' : (Callbacks.newFile m fd).cell ps x = .own x := hown
  refine ⟨hown', ?_⟩
  rw [Memory.read, Memory.read, hown, hown']
  rfl

theorem write {addr : Nat} (b : UInt8) (hout : ¬P addr) : Beside ps P m (m.write ps addr b) := by
  refine ⟨fun x _ => by rw [Memory.pages_write], fun x hx hown =>
    ⟨Memory.cell_write_own hown, ?_⟩⟩
  rw [Memory.read_write, if_neg]
  rintro (rfl | hcell)
  · exact hout hx
  · obtain rfl := Memory.eq_of_target_own (hcell.symm.trans hown)
    exact hout hx

theorem writeBytes (bs : List UInt8) {addr : Nat} (hout : ∀ k, k < bs.length → ¬P (addr + k)) :
    Beside ps P m (m.writeBytes ps addr bs) := by
  induction bs generalizing m addr with
  | nil => exact refl m
  | cons b bs ih =>
      have hrest := @ih (m.write ps addr b) (addr + 1) fun k hk => by
        have hnext := hout (k + 1) (by simpa using hk)
        rwa [Nat.add_comm k, ← Nat.add_assoc] at hnext
      exact (write b (hout 0 (by simp))).trans hrest

theorem fillCode {base size : Nat} {code : List UInt8} (hcode : code.length ≤ size)
    (hout : ∀ off, off < MAXCALLBACKS * size → ¬P (base + off)) :
    Beside ps P m (fillCode ps m base size code) := by
  rw [fillCode_eq_foldl]
  have hplaces : ∀ o ∈ places base size, ∀ k, k < code.length → ¬P (o + k) := by
    intro o ho k hk
    obtain ⟨slot, rfl⟩ := mem_places.mp ho
    rw [Nat.add_assoc]
    exact hout _ (entry_lt slot (by omega))
  generalize places base size = l at hplaces
  induction l generalizing m with
  | nil => exact refl m
  | cons o l ih =>
      have hfirst : Beside ps P m (m.writeBytes ps o code) :=
        writeBytes code (hplaces o List.mem_cons_self)
      exact hfirst.trans (ih fun o' ho' => hplaces o' (List.mem_cons_of_mem _ ho'))

end Beside

namespace Worked

theorem refl (hw : Works e r box) (m : Memory) : Worked e r P box m box m :=
  ⟨⟨box.mm, rfl⟩, hw, .refl m⟩

theorem trans (hw : Worked e r P box m box' m') (hw' : Worked e r P box' m' box'' m'') :
    Worked e r P box m box'' m'' := by
  obtain ⟨mm, rfl⟩ := hw.box_eq
  obtain ⟨mm', rfl⟩ := hw'.box_eq
  exact ⟨⟨mm', rfl⟩, hw'.works, hw.beside.trans hw'.beside⟩

theorem mem (hw : Worked e r P box m box' m') (hb : Beside e.opts.pagesize P m' m'') :
    Worked e r P box m box' m'' := ⟨hw.box_eq, hw.works, hw.beside.trans hb⟩

theorem outOf (hw : Worked e r P box m box' m') (hP : OutOf P box) : OutOf P box' := by
  obtain ⟨mm, rfl⟩ := hw.box_eq
  exact hP

theorem of_served (hw : Works e r box) (hP : OutOf P box) (hbox : ∃ mm, box' = { box with mm := mm })
    (hs : Served e r box m box' m') : Worked e r P box m box' m' :=
  ⟨hbox, hs.works, .of_confined hs.confined fun x hx hin =>
    hP x hx ((inSpan_range_iff hw x).mp hin)⟩

end Worked

/-- The host does not place the alias at these addresses. -/
def AliasOut (e : Engine) (P : Nat → Prop) (a : Callbacks.Answers) : Prop :=
  ∀ start, a.aliasmap = some start →
    ∀ x, InSpan e.opts.pagesize start (dataSize e.target) (x / e.opts.pagesize) → ¬P x

theorem beside_alias {pr : Prot} {src : Source} (hout : ∀ x, InSpan ps start len (x / ps) → ¬P x)
    (m : Memory) : Beside ps P m (m.mmapFixed ps start len pr src) :=
  ⟨fun x hx => Memory.pages_mmapFixed_of_not fun hin => hout x hin hx,
    fun x hx hown => ⟨(Memory.cell_mmapFixed_of_not fun hin => hout x hin hx).trans hown,
      Memory.read_mmapFixed_of_not fun hin => hout x hin hx⟩⟩

theorem beside_munmap (hout : ∀ x, InSpan ps start len (x / ps) → ¬P x) (h : HostCalls.Host) :
    Beside ps P h.mem (munmap ps h start len).2.mem :=
  .of_confined (confined_of_within (within_munmap ..)) fun x hx hin => hout x hin hx

theorem box_of_boxMapany (hw : Works e r box) (h : HostCalls.Host) (size : Nat)
    (prot flags : BitVec 32) (fd off : Int) (noVerify : Bool) :
    ∃ mm, (boxMapanyLocked e box h size prot flags fd off noVerify).2.1 = { box with mm := mm } := by
  rcases mapany_cases hw h size prot flags fd off noVerify with
    ⟨addr, -, -, -, hset, -⟩ | ⟨-, hbox, -⟩
  · exact hset.box_eq
  · exact hbox

theorem worked_initCbX64 (hw : Works e r s.box) (hP : OutOf P s.box) (ha : AliasOut e P a)
    (harm : e.target ≠ arm64) :
    let u := initCbX64 e s a
    Worked e r P s.box s.host.mem u.2.box u.2.host.mem := by
  have hps : 0 < e.opts.pagesize := hw.region.pagesize ▸ r.pagesize_pos
  have hsize : dataSize e.target = MAXCALLBACKS * 32 := by
    rw [dataSize, entrySize, if_neg harm]
  simp only [initCbX64]
  cases a.memfd with
  | none => exact .refl hw _
  | some fd =>
    dsimp only
    have hfile : Worked e r P s.box s.host.mem s.box (newFile s.host.mem fd) :=
      (Worked.refl hw _).mem (.newFile ..)
    split
    · exact hfile
    cases halias : a.aliasmap with
    | none => exact hfile
    | some aliasmap =>
      dsimp only
      have hout := ha aliasmap halias
      rw [hsize] at hout
      generalize hh : setOutcomes _ a.entries = h
      have hmem : h.mem = fillCode e.opts.pagesize ((newFile s.host.mem fd).mmapFixed
          e.opts.pagesize aliasmap (MAXCALLBACKS * 32) Prot.readWrite (.sharedFile fd 0)) aliasmap
            32 cbentryCode := by
        rw [← hh, setOutcomes]
      have hentry : cbentryCode.length ≤ 32 := by decide
      have hbefore : Worked e r P s.box s.host.mem s.box h.mem := by
        rw [hmem]
        refine (hfile.mem (beside_alias hout _)).mem (.fillCode hentry fun off hoff => ?_)
        exact hout _ (inSpan_of_mem hps (Nat.le_add_right ..) (by omega))
      have hany : Worked e r P s.box h.mem _ _ := .of_served hw hP
        (box_of_boxMapany hw h (MAXCALLBACKS * 32) (LFI_PROT_READ ||| LFI_PROT_EXEC) LFI_MAP_SHARED
          fd 0 true) (served_mapany hw h ..)
      generalize boxMapanyLocked e s.box h _ _ _ _ _ _ = u at hany ⊢
      obtain ⟨_ | addr, box', h'⟩ := u
      · exact (hbefore.trans hany).mem (beside_munmap hout (setOutcomes h' a.munmap))
      · exact hbefore.trans hany

theorem worked_initCbArm64 (hw : Works e r s.box) (hP : OutOf P s.box) (ha : AliasOut e P a)
    (harm : e.target = arm64) :
    let u := initCbArm64 e s a
    Worked e r P s.box s.host.mem u.2.box u.2.host.mem := by
  have hps : 0 < e.opts.pagesize := hw.region.pagesize ▸ r.pagesize_pos
  have hhalf : 2 * MAXCALLBACKS * 16 / 2 = MAXCALLBACKS * 16 := rfl
  have hsize : dataSize e.target = MAXCALLBACKS * 16 := by
    rw [dataSize, entrySize, if_pos harm]
  simp only [initCbArm64, hhalf]
  cases a.memfd with
  | none => exact .refl hw _
  | some fd =>
    dsimp only
    have hfile : Worked e r P s.box s.host.mem s.box (newFile s.host.mem fd) :=
      (Worked.refl hw _).mem (.newFile ..)
    split
    · exact hfile
    cases halias : a.aliasmap with
    | none => exact hfile
    | some aliasmap =>
      dsimp only
      have hout := ha aliasmap halias
      rw [hsize] at hout
      generalize hh : setOutcomes _ a.entries = h
      have hmem : h.mem = (newFile s.host.mem fd).mmapFixed e.opts.pagesize aliasmap
          (MAXCALLBACKS * 16) Prot.readWrite (.sharedFile fd 0) := by
        rw [← hh, setOutcomes]
      have hbefore : Worked e r P s.box s.host.mem s.box h.mem := by
        rw [hmem]
        exact hfile.mem (beside_alias hout _)
      have hcases := mapany_cases hw h (2 * MAXCALLBACKS * 16) (LFI_PROT_READ ||| LFI_PROT_WRITE)
        (LFI_MAP_ANONYMOUS ||| LFI_MAP_PRIVATE) (-1) 0 false
      have hany : Worked e r P s.box h.mem _ _ := .of_served hw hP
        (box_of_boxMapany hw h (2 * MAXCALLBACKS * 16) (LFI_PROT_READ ||| LFI_PROT_WRITE)
          (LFI_MAP_ANONYMOUS ||| LFI_MAP_PRIVATE) (-1) 0 false) (served_mapany hw h ..)
      generalize boxMapanyLocked e s.box h _ _ _ _ _ _ = u at hcases hany ⊢
      -- the end of every failure
      have hunmap : ∀ {box₁ : LFIBox} {h₁ : HostCalls.Host},
          Worked e r P s.box s.host.mem box₁ h₁.mem → Worked e r P s.box s.host.mem box₁
            (munmap e.opts.pagesize (setOutcomes h₁ a.munmap) aliasmap (MAXCALLBACKS * 16)).2.mem :=
        fun {_ h₁} hw₁ => hw₁.mem (beside_munmap hout (setOutcomes h₁ a.munmap))
      obtain ⟨_ | addr, box', h'⟩ := u
      · exact hunmap (hbefore.trans hany)
      dsimp only at hany ⊢
      obtain ⟨_, heq, hacc, -⟩ := hcases.resolve_right (by simp)
      obtain rfl := Option.some.inj heq
      have hin : ∀ off, off < MAXCALLBACKS * 16 → ¬P (addr + off) := by
        intro off hoff hp
        exact hP _ hp (inBox_of_accepts hw hacc (Nat.le_add_right ..) (by omega))
      have hlen : cbtrampoline.length ≤ 16 := by decide
      have hcode := (hbefore.trans hany).mem (Beside.fillCode hlen hin)
      generalize hh' : setOutcomes _ a.protect = h₁
      have hmem' : h₁.mem = fillCode e.opts.pagesize h'.mem addr 16 cbtrampoline := by
        rw [← hh', setOutcomes]
      rw [← hmem'] at hcode
      obtain ⟨ho, -⟩ := boxMprotect_cases hcode.works h₁ addr (MAXCALLBACKS * 16)
        (LFI_PROT_READ ||| LFI_PROT_EXEC) true
      have hprotect := hcode.trans (.of_served hcode.works (hcode.outOf hP) ho.box_eq
        (served_mprotect hcode.works h₁ addr (MAXCALLBACKS * 16)
          (LFI_PROT_READ ||| LFI_PROT_EXEC) true))
      -- taking the pages back
      have hundo : ∀ {box₁ : LFIBox} {h₂ : HostCalls.Host},
          Worked e r P s.box s.host.mem box₁ h₂.mem →
          Worked e r P s.box s.host.mem
            (boxMunmapLocked e box₁ (setOutcomes h₂ a.undo) addr (2 * MAXCALLBACKS * 16)).2.1
              (munmap e.opts.pagesize (setOutcomes (boxMunmapLocked e box₁ (setOutcomes h₂ a.undo)
                addr (2 * MAXCALLBACKS * 16)).2.2 a.munmap) aliasmap (MAXCALLBACKS * 16)).2.mem := by
        intro box₁ h₂ hw₁
        obtain ⟨ho, -⟩ := boxMunmap_cases hw₁.works (setOutcomes h₂ a.undo) addr
          (2 * MAXCALLBACKS * 16)
        exact hunmap (hw₁.trans (.of_served hw₁.works (hw₁.outOf hP) ho.box_eq
          (served_munmap hw₁.works (setOutcomes h₂ a.undo) addr (2 * MAXCALLBACKS * 16))))
      generalize boxMprotectLocked e box' h₁ _ _ _ _ = v at hprotect ⊢
      obtain ⟨res, box'', h₂⟩ := v
      dsimp only at hprotect ⊢
      split
      · exact hundo hprotect
      have ho' := only_mapat hprotect.works (setOutcomes h₂ a.data) (addr + MAXCALLBACKS * 16)
        (MAXCALLBACKS * 16) LFI_PROT_READ LFI_MAP_SHARED fd 0
      have hmapat := hprotect.trans (.of_served hprotect.works (hprotect.outOf hP) ho'.box_eq
        (served_mapat hprotect.works (setOutcomes h₂ a.data) (addr + MAXCALLBACKS * 16)
          (MAXCALLBACKS * 16) LFI_PROT_READ LFI_MAP_SHARED fd 0))
      generalize boxMapatLocked e box'' _ _ _ _ _ _ _ = w at hmapat ⊢
      obtain ⟨_ | boxmap, box₃, h₃⟩ := w
      · exact hundo hmapat
      · exact hmapat

theorem worked_initCb (hw : Works e r s.box) (hP : OutOf P s.box) (ha : AliasOut e P a) :
    let u := initCb e s a
    Worked e r P s.box s.host.mem u.2.box u.2.host.mem := by
  rw [initCb]
  split
  · rename_i harm
    exact worked_initCbArm64 hw hP ha harm
  · rename_i harm
    exact worked_initCbX64 hw hP ha harm

/-- The stores of the runtime go to the alias. -/
theorem beside_assign (halias : ∀ off, off < dataSize e.target → ¬P (s.cbinfo.aliasmap + off))
    (slot : Slot) (fn target trampoline : BitVec 64) :
    Beside e.opts.pagesize P s.host.mem (assign e s slot fn target trampoline).host.mem := by
  have hlt := targetOff_lt e.target slot
  have hlen : ∀ v : BitVec 64, (leBytes 8 v.toNat).length = 8 := fun v => length_leBytes 8 _
  have hfirst := @Beside.writeBytes P s.host.mem e.opts.pagesize (leBytes 8 target.toNat)
    (s.cbinfo.aliasmap + targetOff e.target slot) fun k hk => by
      rw [hlen] at hk
      rw [Nat.add_assoc]
      exact halias _ (by omega)
  refine hfirst.trans (.writeBytes _ fun k hk => ?_)
  rw [hlen] at hk
  rw [trampolineOff, Nat.add_assoc, Nat.add_assoc]
  exact halias _ (by omega)

/-- What a registration or a removal does. -/
theorem worked_call {address : Trampoline → BitVec 64} (hu : Usable e r s) (hP : OutOf P s.box)
    (halias : ∀ off, off < dataSize e.target → ¬P (s.cbinfo.aliasmap + off)) {c : Callbacks.Call}
    (hc : c.Sound e s.box) (hout : ∀ kind fn a, c = .register kind fn a → AliasOut e P a) :
    let s' := (Tracked.next e address ⟨s, []⟩ c).state
    Worked e r P s.box s.host.mem s'.box s'.host.mem := by
  have hassign : ∀ {u : Callbacks.State} slot fn target trampoline,
      Worked e r P s.box s.host.mem u.box u.host.mem →
        (∀ off, off < dataSize e.target → ¬P (u.cbinfo.aliasmap + off)) →
          Worked e r P s.box s.host.mem (assign e u slot fn target trampoline).box
            (assign e u slot fn target trampoline).host.mem :=
    fun slot fn target trampoline hw hu => hw.mem (beside_assign hu slot fn target trampoline)
  cases c with
  | register kind fn a =>
      intro s'
      have hready : ∀ {u : Callbacks.State}, u.cbinfo.entries ≠ 0 →
          Worked e r P s.box s.host.mem u.box u.host.mem →
            (∀ off, off < dataSize e.target → ¬P (u.cbinfo.aliasmap + off)) →
              Worked e r P s.box s.host.mem (registerCb e address u a fn kind).2.box
                (registerCb e address u a fn kind).2.host.mem := by
        intro u hentries hw hold
        rcases @registerCb_cases e address u hentries a fn kind with
          ⟨slot, -, heq⟩ | ⟨-, ⟨-, heq⟩ | ⟨slot, -, heq⟩⟩
        · rw [heq]
          exact hw
        · rw [heq]
          exact hw
        · rw [heq]
          exact hassign slot fn fn _ hw hold
      have hstate : s' = (registerCb e address s a fn kind).2 :=
        congrArg Prod.snd (register_eq s a fn kind)
      rw [hstate]
      rcases eq_or_ne s.cbinfo.entries 0 with h0 | hne
      · have hinit := @worked_initCb e r P s a hu.works hP (hout kind fn a rfl)
        have hset := setup_initCb hu.works hu.pos hc.2
        have hreg := @registerCb_init e address s h0 a fn kind
        cases hok : (initCb e s a).1 with
        | false =>
            rw [hreg (by simp [hok]), hok]
            exact hinit
        | true =>
            have hmade := hset.made hok
            obtain ⟨f, -, hready', -⟩ := hmade.file
            rw [hreg fun _ => hready'.entries, if_pos hok]
            refine hready hready'.entries hinit fun off hoff => ?_
            exact hout kind fn a rfl _ hmade.aliasmap _ (inSpan_of_mem
              (hu.works.region.pagesize ▸ r.pagesize_pos) (Nat.le_add_right ..) (by omega))
      · exact hready hne (.refl hu.works _) halias
  | unregister fn =>
      rw [Tracked.next]
      dsimp only
      rcases unregister_cases e s fn with ⟨-, heq⟩ | ⟨slot, -, heq⟩
      · rw [heq]
        exact .refl hu.works _
      · rw [heq]
        exact hassign slot 0 0 0 (.refl hu.works _) halias

/-- A registration or a removal, as a step of the engine. -/
theorem step_call {address : Trampoline → BitVec 64} {w : World} {b : KeyedBox} {rt : Runtime}
    {k : Nat} {span res : Space} (h : Layout e k span res w) (hb : b ∈ w.boxes) (hbox : s.box = b.box)
    (hmem : s.host.mem = w.mem) (hpos : 0 < s.box.min) {c : Callbacks.Call}
    (hc : c.Sound e s.box)
    (halias : ∀ off, off < dataSize e.target → ¬InReservation w.map (s.cbinfo.aliasmap + off))
    (hout : ∀ kind fn a, c = .register kind fn a → AliasOut e (InReservation w.map) a)
    {keyOf : Nat → Nat} (hkey : ∀ p, ¬InRange e b p → keyOf p = w.keyOf p) (table : Option Nat) :
    let s' := (Tracked.next e address ⟨s, []⟩ c).state
    let b' : KeyedBox := { b with box := s'.box, table := table }
    Step e rt w (.callbacks b b' s'.host.mem keyOf)
      { put w b' with mem := s'.host.mem, keyOf := keyOf } := by
  intro s' b'
  let P := fun x => InReservation w.map x ∧ ¬InRange e b (x / e.opts.pagesize)
  obtain ⟨r, hw⟩ := (h.kept b hb).works
  have hP : OutOf P s.box := by
    rw [hbox]
    exact fun x hx hin => hx.2 ((inSpan_range_iff hw x).mpr hin)
  have hworks : ∀ {r}, Works e r b.box →
      Worked e r P s.box s.host.mem s'.box s'.host.mem := by
    intro r hw
    rw [← hbox] at hw
    have hold : ∀ off, off < dataSize e.target → ¬P (s.cbinfo.aliasmap + off) :=
      fun off hoff hx => halias off hoff hx.1
    apply worked_call ⟨hw, hpos⟩ hP hold hc
    exact fun kind fn a heq start hstart x hx hp => hout kind fn a heq start hstart x hx hp.1
  have hwork := hworks hw
  refine ⟨hb, ⟨?_, rfl, fun r hw => (hworks hw).works, fun x hres hrange => ?_⟩, rfl⟩
  · obtain ⟨mm, hmm⟩ := hwork.box_eq
    change s'.box = { b.box with mm := s'.box.mm }
    rw [hmm, hbox]
  · rw [← hmem]
    refine ⟨hwork.beside.pages x ⟨hres, hrange⟩, fun hown => ?_⟩
    have hpages := hwork.beside.pages x ⟨hres, hrange⟩
    obtain ⟨hown', hbytes⟩ := hwork.beside.own x ⟨hres, hrange⟩ hown
    rw [hmem] at hpages hbytes hown
    rw [World.shows, World.shows]
    dsimp only
    rw [hpages, hbytes, hkey _ hrange, hown', hown]

end

end LfiRuntime.EngineRuns
