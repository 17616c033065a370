import LfiRuntime.Box.CallbackInit
import LfiRuntime.Box.PageMoves

/-!
What `init_cb` does to the pages of the box: the file of the callbacks shows at the
entries, where the sandbox cannot write it, and nowhere else.
-/

namespace LfiRuntime.Callbacks

open LfiRuntime.Box
open LfiRuntime.Config
open LfiRuntime.HostCalls
open LfiRuntime.Mmap
open LfiRuntime.PagedMemory

def InBox (box : LFIBox) (x : Nat) : Prop := box.min ≤ x ∧ x < box.max

/-- In the box, the new file from `base` on. -/
def fileCells (box : LFIBox) (a : Answers) (base x : Nat) (c : Cell) : Prop :=
  InBox box x → ∃ fd, a.memfd = some fd ∧ base ≤ x ∧ c = .file fd (x - base)

/-- What shows in the box, and is written there, is as before but for the new file. -/
abbrev FileFrom (e : Engine) (box : LFIBox) (a : Answers) (base : Nat) (m m' : Memory) : Prop :=
  CellsFrom e.opts.pagesize (fileCells box a base) (fileCells box a base) m m'

/-- What an `init_cb` that gets through leaves in the box. -/
structure NewTable (e : Engine) (r : Region) (a : Answers) (s : State) : Prop where
  file : ∃ fd, a.memfd = some fd ∧ Ready e s fd ∧
    ∀ slot, entryWords e.target (s.host.mem.files fd) slot = (0, 0)
  aliasmap : a.aliasmap = some s.cbinfo.aliasmap
  accepts : r.Accepts (dataBase e s) (dataSize e.target)
  inside : ∀ slot j, j < 16 → InBox s.box (entryAddr e s slot + j)
  locked : ∀ off, off < dataSize e.target →
    (s.host.mem.prot ((dataBase e s + off) / e.opts.pagesize)).write = false
  taken : ∀ off, off < dataSize e.target →
    s.box.mm.table ((dataBase e s + off) / e.opts.pagesize) ≠ none

/-- The cells after an `init_cb`, and its table if it gets through. -/
structure TableSetup (e : Engine) (r : Region) (s : State) (a : Answers) (u : Bool × State) :
    Prop where
  cells : ∃ base, FileFrom e s.box a base s.host.mem u.2.host.mem ∧
    (u.1 = true → base = dataBase e u.2)
  made : u.1 = true → NewTable e r a u.2

section

variable {e : Engine} {r : Region} {s : State} {a : Answers} {box : LFIBox} {h : Host}
  {m m' : Memory} {ps addr size base start len : Nat} {fd : Int} {pr : Prot} {src : Source}

theorem cellsFrom_newFile (F G : Nat → Cell → Prop) (m : Memory) (fd : Int) :
    CellsFrom ps F G m (newFile m fd) := ⟨fun _ => .inl rfl, fun _ => .inl rfl⟩

theorem cellsFrom_fillCode (F G : Nat → Cell → Prop) (m : Memory) (base size : Nat)
    (code : List UInt8) : CellsFrom ps F G m (fillCode ps m base size code) := by
  rw [fillCode_eq_foldl]
  generalize places base size = l
  induction l generalizing m with
  | nil => exact .refl m
  | cons o l ih => exact (CellsFrom.writeBytes m o code).trans (ih _)

/-- The alias is not in the box. -/
theorem fileFrom_alias (hels : Elsewhere e box start len) (m : Memory) :
    FileFrom e box a base m (m.mmapFixed e.opts.pagesize start len pr src) :=
  .mmapFixed m pr ⟨fun _ _ _ _ x hin hx => absurd hx (hels.outside x hin),
    fun _ _ _ _ x hin hx => absurd hx (hels.outside x hin)⟩ hels.aligned

/-- The file is mapped in the box from `start` on. -/
theorem allows_file (ha : a.memfd = some fd) :
    Allows e.opts.pagesize (fileCells box a start) (fileCells box a start) start len
      (hostSource e.opts.pagesize LFI_MAP_SHARED fd 0) := by
  have hcell : ∀ f off, hostSource e.opts.pagesize LFI_MAP_SHARED fd 0 = some (.sharedFile f off) →
      e.opts.pagesize ∣ start → ∀ x, InSpan e.opts.pagesize start len (x / e.opts.pagesize) →
        fileCells box a start x (mappedCell e.opts.pagesize start f off x) := by
    rintro f off hsrc ⟨i, rfl⟩ x hin -
    have hps := hin.pos
    obtain ⟨rfl, rfl⟩ := Source.sharedFile.inj (hostSource_shared hsrc)
    have hpage : i ≤ x / e.opts.pagesize := by
      have hfirst := hin.1
      rwa [Nat.mul_div_cancel_left _ hps] at hfirst
    have hle := Nat.mul_le_mul_right e.opts.pagesize hpage
    have hmod := Nat.div_add_mod x e.opts.pagesize
    rw [Nat.mul_comm] at hmod
    refine ⟨f, ha, ?_, ?_⟩
    · rw [Nat.mul_comm]
      omega
    · simp only [mappedCell, Nat.zero_div, Nat.zero_add, Nat.mul_div_cancel_left _ hps, Nat.sub_mul]
      rw [Nat.mul_comm e.opts.pagesize i]
      congr 1
      omega
  refine ⟨fun f off hsrc => ?_, hcell⟩
  rcases hsrc with hsrc | hsrc
  · cases hostSource_shared hsrc
  · exact hcell f off hsrc

theorem TableSetup.of_failed {s' : State} (base : Nat)
    (hcells : FileFrom e s.box a base s.host.mem s'.host.mem) :
    TableSetup e r s a (false, s') :=
  ⟨⟨base, hcells, fun h => absurd h (by simp)⟩, fun h => absurd h (by simp)⟩

theorem TableSetup.of_made {s' : State}
    (hcells : FileFrom e s.box a (dataBase e s') s.host.mem s'.host.mem)
    (hmade : NewTable e r a s') : TableSetup e r s a (true, s') :=
  ⟨⟨_, hcells, fun _ => rfl⟩, fun _ => hmade⟩

theorem inBox_of_accepts (hw : Works e r box) (hacc : r.Accepts addr size) {x : Nat}
    (hlo : addr ≤ x) (hhi : x < addr + size) : InBox box x := by
  have hbuf := bufvalid_of_accepts hw hacc
  simp only [lfiBoxBufvalid, Bool.and_eq_true, decide_eq_true_eq] at hbuf
  exact ⟨by omega, by omega⟩

/-- The table once the file has been mapped at `start`, where nothing may write to it. -/
theorem newTable_of_sets {s' : State} {box' : LFIBox} {h' : Host} {info : MapInfo}
    (hfile : ∃ fd, a.memfd = some fd ∧ Ready e s' fd ∧
      ∀ slot, entryWords e.target (s'.host.mem.files fd) slot = (0, 0))
    (halias : a.aliasmap = some s'.cbinfo.aliasmap) (hdata : dataBase e s' = start)
    (hsize : dataSize e.target = size) (hacc : r.Accepts start size)
    (hinside : ∀ slot j, j < 16 → InBox s'.box (entryAddr e s' slot + j))
    (hgiven : Given e.opts.pagesize start size s'.host pr) (hwrite : pr.write = false)
    (hset : Sets e r box' h' start size (some info) s'.box s'.host) : NewTable e r a s' := by
  have hregion := hset.works.region
  have hps : 0 < e.opts.pagesize := hregion.pagesize ▸ r.pagesize_pos
  have hspan : ∀ off, off < dataSize e.target →
      InSpan e.opts.pagesize start size ((start + off) / e.opts.pagesize) := fun off hoff =>
    inSpan_of_mem hps (Nat.le_add_right ..) (Nat.add_lt_add_left (hsize ▸ hoff) start)
  refine ⟨hfile, halias, hdata ▸ hsize ▸ hacc, hinside, fun off hoff => ?_, fun off hoff => ?_⟩
  · rw [hdata, (hgiven _ (hspan off hoff)).2, hwrite]
  · rw [hdata, hset.table, Table.set,
      if_pos ((hregion.inSpan_iff (hregion.pagesize ▸ hacc.1)).mp (hspan off hoff))]
    simp

theorem setup_initCbX64 (hw : Works e r s.box) (hmin : 0 < s.box.min) (ha : a.Sound e s.box)
    (harm : e.target ≠ arm64) : TableSetup e r s a (initCbX64 e s a) := by
  simp only [initCbX64]
  cases hfd : a.memfd with
  | none => exact .of_failed 0 (.refl _)
  | some fd =>
    dsimp only
    split
    · exact .of_failed 0 (cellsFrom_newFile ..)
    cases halias : a.aliasmap with
    | none => exact .of_failed 0 (cellsFrom_newFile ..)
    | some aliasmap =>
      dsimp only
      have hels := ha aliasmap halias
      have hsize : dataSize e.target = MAXCALLBACKS * 32 := by
        rw [dataSize, entrySize, if_neg harm]
      rw [hsize] at hels
      generalize hh : setOutcomes _ a.entries = h
      have hmem : h.mem = fillCode e.opts.pagesize ((newFile s.host.mem fd).mmapFixed
          e.opts.pagesize aliasmap (MAXCALLBACKS * 32) Prot.readWrite (.sharedFile fd 0)) aliasmap
            32 cbentryCode := by
        rw [← hh, setOutcomes]
      have hbefore : ∀ base, FileFrom e s.box a base s.host.mem h.mem := by
        intro base
        rw [hmem]
        exact ((cellsFrom_newFile ..).trans (fileFrom_alias hels _)).trans (cellsFrom_fillCode ..)
      have hany := mapany_cases hw h (MAXCALLBACKS * 32) (LFI_PROT_READ ||| LFI_PROT_EXEC)
        LFI_MAP_SHARED fd 0 true
      have hbase := fun addr => @mapAny_of_boxMapany e s.box h (MAXCALLBACKS * 32) addr
        (LFI_PROT_READ ||| LFI_PROT_EXEC) LFI_MAP_SHARED fd 0 true
      have hcells : FileFrom e s.box a ((s.box.mm.mapAny 0
          (MAXCALLBACKS * 32) ⟨LFI_PROT_READ ||| LFI_PROT_EXEC, LFI_MAP_SHARED, fd, 0⟩).1.getD 0)
            h.mem (boxMapanyLocked e s.box h (MAXCALLBACKS * 32) (LFI_PROT_READ ||| LFI_PROT_EXEC)
              LFI_MAP_SHARED fd 0 true).2.2.mem := by
        refine .mapany _ _ fun addr mm hmap => ?_
        rw [hmap]
        exact allows_file hfd
      generalize boxMapanyLocked e s.box h _ _ _ _ _ _ = u at hany hbase hcells ⊢
      obtain ⟨res, box', h'⟩ := u
      rcases hany with ⟨addr, heq, hacc, -, hset, hver, hhost⟩ | ⟨hnone, -⟩
      · dsimp only at heq hset hhost hcells
        subst heq hhost
        rw [hbase addr rfl] at hcells
        dsimp only
        have hdata : ∀ d box'' host cbs, dataBase e ⟨box'', host, ⟨aliasmap, addr, d⟩, cbs⟩ = addr :=
          fun _ _ _ _ => if_neg harm
        have hgiven := given_mapverify hver
        obtain ⟨mm, hbox⟩ := hset.box_eq
        apply TableSetup.of_made
        · rw [hdata]
          exact (hbefore _).trans hcells
        · refine newTable_of_sets
            ⟨fd, hfd, ready_x64 hw hmin harm (hsize ▸ hels) hmem hacc hver⟩ halias (hdata ..)
            hsize hacc (fun slot j hj => ?_) hgiven rfl hset
          rw [hbox, entryAddr, entrySize, if_neg harm, Nat.add_assoc]
          exact inBox_of_accepts hw hacc (Nat.le_add_right ..)
            (Nat.add_lt_add_left (entry_lt slot (by omega)) addr)
      · dsimp only at hnone hcells
        subst hnone
        exact .of_failed _ (((hbefore _).trans hcells).trans
          (.munmap (setOutcomes h' a.munmap)))

/-- The cells when the entries have been taken away again. -/
theorem TableSetup.of_undone {s' : State} {h₁ : Host} {aliasmap size' : Nat} (base : Nat)
    (hcells : FileFrom e s.box a base s.host.mem h₁.mem)
    (hmem : s'.host.mem = (munmap e.opts.pagesize (setOutcomes (boxMunmapLocked e box
      (setOutcomes h₁ a.undo) addr size).2.2 a.munmap) aliasmap size').2.mem) :
    TableSetup e r s a (false, s') := by
  have hundo := hcells.trans (@CellsFrom.boxMunmap e box (fileCells s.box a base)
    (fileCells s.box a base) size addr (setOutcomes h₁ a.undo))
  refine .of_failed base ?_
  rw [hmem]
  exact hundo.trans (.munmap (setOutcomes (boxMunmapLocked e box (setOutcomes h₁ a.undo) addr
    size).2.2 a.munmap))

theorem setup_initCbArm64 (hw : Works e r s.box) (hmin : 0 < s.box.min) (ha : a.Sound e s.box)
    (harm : e.target = arm64) : TableSetup e r s a (initCbArm64 e s a) := by
  have hps : 0 < e.opts.pagesize := hw.region.pagesize ▸ r.pagesize_pos
  have hhalf : 2 * MAXCALLBACKS * 16 / 2 = MAXCALLBACKS * 16 := rfl
  simp only [initCbArm64, hhalf]
  cases hfd : a.memfd with
  | none => exact .of_failed 0 (.refl _)
  | some fd =>
    dsimp only
    split
    · exact .of_failed 0 (cellsFrom_newFile ..)
    cases halias : a.aliasmap with
    | none => exact .of_failed 0 (cellsFrom_newFile ..)
    | some aliasmap =>
      dsimp only
      have hels := ha aliasmap halias
      have hsize : dataSize e.target = MAXCALLBACKS * 16 := by
        rw [dataSize, entrySize, if_pos harm]
      rw [hsize] at hels
      generalize hh : setOutcomes _ a.entries = h
      have hmem : h.mem = (newFile s.host.mem fd).mmapFixed e.opts.pagesize aliasmap
          (MAXCALLBACKS * 16) Prot.readWrite (.sharedFile fd 0) := by
        rw [← hh, setOutcomes]
      have hbefore : ∀ base, FileFrom e s.box a base s.host.mem h.mem := by
        intro base
        rw [hmem]
        exact (cellsFrom_newFile ..).trans (fileFrom_alias hels _)
      have hany := mapany_cases hw h (2 * MAXCALLBACKS * 16) (LFI_PROT_READ ||| LFI_PROT_WRITE)
        (LFI_MAP_ANONYMOUS ||| LFI_MAP_PRIVATE) (-1) 0 false
      have hcells : ∀ base, FileFrom e s.box a base h.mem
          (boxMapanyLocked e s.box h (2 * MAXCALLBACKS * 16) (LFI_PROT_READ ||| LFI_PROT_WRITE)
            (LFI_MAP_ANONYMOUS ||| LFI_MAP_PRIVATE) (-1) 0 false).2.2.mem :=
        fun base => .mapany _ _ fun _ _ _ => allows_anon
      generalize boxMapanyLocked e s.box h _ _ _ _ _ _ = u at hany hcells ⊢
      obtain ⟨res, box', h'⟩ := u
      rcases hany with ⟨addr, heq, hacc, hfree, hset, hver, hhost⟩ | ⟨hnone, -⟩
      swap
      · dsimp only at hnone hcells
        subst hnone
        exact .of_failed 0 (((hbefore 0).trans (hcells 0)).trans
          (.munmap (setOutcomes h' a.munmap)))
      dsimp only at heq hset hhost hcells
      subst heq hhost
      dsimp only
      have hcode := CodeHalf.of_fill hw hels hmem hacc hver
      have hgiven := given_mapverify hver
      -- the code is made executable
      generalize hh' : setOutcomes _ a.protect = h₁
      have hmem' : h₁.mem = fillCode e.opts.pagesize (mapverify e h addr (2 * MAXCALLBACKS * 16)
          (LFI_PROT_READ ||| LFI_PROT_WRITE) (LFI_MAP_ANONYMOUS ||| LFI_MAP_PRIVATE) (-1) 0
            false).2.mem addr 16 cbtrampoline := by
        rw [← hh', setOutcomes]
      have hfilled : ∀ base, FileFrom e s.box a base s.host.mem h₁.mem := by
        intro base
        rw [hmem']
        exact ((hbefore base).trans (hcells base)).trans (cellsFrom_fillCode ..)
      rw [← hmem'] at hcode
      obtain ⟨ho, hprotect⟩ := boxMprotect_cases hset.works h₁ addr (MAXCALLBACKS * 16)
        (LFI_PROT_READ ||| LFI_PROT_EXEC) true
      have hneg := @boxMprotect_eq_neg_one e box' h₁ addr (MAXCALLBACKS * 16)
        (LFI_PROT_READ ||| LFI_PROT_EXEC) true
      have hprotected : ∀ base, FileFrom e s.box a base h₁.mem
          (boxMprotectLocked e box' h₁ addr (MAXCALLBACKS * 16) (LFI_PROT_READ ||| LFI_PROT_EXEC)
            true).2.2.mem := fun base => .boxMprotect h₁
      generalize boxMprotectLocked e box' h₁ _ _ _ _ = v at ho hprotect hneg hprotected ⊢
      obtain ⟨res, box'', h₂⟩ := v
      rcases hprotect with hlt | ⟨heq, hver', hhost, -, -⟩
      · dsimp only
        rw [if_pos (hneg hlt)]
        exact .of_undone 0 ((hfilled 0).trans (hprotected 0)) rfl
      dsimp only at heq hhost hprotected ⊢
      rw [if_neg (by omega)]
      -- the file is mapped over the second half
      generalize hh'' : setOutcomes h₂ a.data = h₃
      have hmem'' : h₃.mem = (protectverify e h₁ addr (MAXCALLBACKS * 16)
          (LFI_PROT_READ ||| LFI_PROT_EXEC) true).2.mem := by
        rw [← hh'', setOutcomes, hhost]
      have hready : ∀ base, FileFrom e s.box a base s.host.mem h₃.mem := by
        intro base
        rw [← hh'']
        exact (hfilled base).trans (hprotected base)
      have hmapat := mapat_cases ho.works h₃ (addr + MAXCALLBACKS * 16) (MAXCALLBACKS * 16)
        LFI_PROT_READ LFI_MAP_SHARED fd 0
      have hdata : FileFrom e s.box a (addr + MAXCALLBACKS * 16) h₃.mem
          (boxMapatLocked e box'' h₃ (addr + MAXCALLBACKS * 16) (MAXCALLBACKS * 16) LFI_PROT_READ
            LFI_MAP_SHARED fd 0).2.2.mem := by
        refine .mapat _ fun b mm pieces hmap => ?_
        rcases ho.works.mapper.mapAt_cases ho.works.region.fits (addr + MAXCALLBACKS * 16)
            (MAXCALLBACKS * 16) ⟨LFI_PROT_READ, LFI_MAP_SHARED, fd, 0⟩ with ⟨mm', heq', -⟩ | ⟨heq', -⟩
        · rw [heq'] at hmap
          obtain rfl := Option.some.inj (Prod.mk.inj hmap).1
          exact allows_file hfd
        · rw [heq'] at hmap
          cases (Prod.mk.inj hmap).1
      generalize boxMapatLocked e box'' h₃ _ _ _ _ _ _ = w at hmapat hdata ⊢
      obtain ⟨res', box₃, h₄⟩ := w
      rcases hmapat with ⟨heq', -⟩ | ⟨-, hacc', ⟨hver'', heq', hset', hhost'⟩ | ⟨-, heq', -, -⟩⟩
      · obtain ⟨rfl, rfl, rfl⟩ : res' = none ∧ box₃ = box'' ∧ h₄ = h₃ := by
          simpa using heq'
        exact .of_undone 0 (hready 0) rfl
      · dsimp only at heq' hset' hhost' hdata
        subst heq'
        dsimp only
        have hbase : ∀ d box'' host cbs, dataBase e ⟨box'', host, ⟨aliasmap, addr, d⟩, cbs⟩ =
            addr + MAXCALLBACKS * 16 := fun _ _ _ _ => if_pos harm
        have hmapped : ∀ off, off < MAXCALLBACKS * 16 →
            (h₁.mem.pages ((addr + off) / e.opts.pagesize)).isSome := by
          intro off hoff
          rw [hmem', pages_fillCode]
          exact (hgiven _ (inSpan_of_mem hps (by omega) (by omega))).1
        have hlast := given_mapverify hver''
        rw [← show h₄ = _ from hhost'] at hlast
        obtain ⟨mm, hmm⟩ := hset.box_eq
        obtain ⟨mm', hmm'⟩ := ho.box_eq
        obtain ⟨mm'', hmm''⟩ := hset'.box_eq
        have hbox : box₃ = { s.box with mm := mm'' } := by
          rw [hmm'', show box'' = _ from hmm', hmm]
        apply TableSetup.of_made
        · rw [hbase]
          exact (hready _).trans hdata
        · refine newTable_of_sets
            ⟨fd, hfd, ready_mapped hw hmin harm hels hacc hacc' hcode hver' hmapped hmem''
              hset'.within hset'.files hver'' hhost' _⟩ halias (hbase ..) hsize hacc'
            (fun slot j hj => ?_) hlast rfl hset'
          have hlt := Nat.add_lt_add_left (entry_lt slot hj) addr
          rw [hbox, entryAddr, entrySize, if_pos harm, Nat.add_assoc]
          exact inBox_of_accepts hw hacc (Nat.le_add_right ..) (hlt.trans (by omega))
      · dsimp only at heq' hdata
        subst heq'
        exact .of_undone _ ((hready _).trans hdata) rfl

theorem setup_initCb (hw : Works e r s.box) (hmin : 0 < s.box.min) (ha : a.Sound e s.box) :
    TableSetup e r s a (initCb e s a) := by
  rw [initCb]
  split
  · rename_i harm
    exact setup_initCbArm64 hw hmin ha harm
  · rename_i harm
    exact setup_initCbX64 hw hmin ha harm

end

end LfiRuntime.Callbacks
