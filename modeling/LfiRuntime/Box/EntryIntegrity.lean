import LfiRuntime.Box.CallbackRuns
import LfiRuntime.Box.EngineRuns
import LfiRuntime.Box.EntryTable

/-!
The callback entries, while the sandbox changes its memory: an entry that can still be
entered leads where the runtime has last pointed it.
-/

namespace LfiRuntime.Callbacks

open LfiRuntime.Box
open LfiRuntime.Config
open LfiRuntime.ExecVerified
open LfiRuntime.HostCalls
open LfiRuntime.Mmap
open LfiRuntime.PagedMemory
open LfiRuntime.Runs

/-- A box, and the target and trampoline that the runtime has last stored for each slot. -/
structure Watched where
  state : Callbacks.State
  last : Slot → BitVec 64 × BitVec 64

/-- A call of the host, or an operation of the sandbox with the answers to its host calls. -/
inductive Act
  | host (c : Call)
  | sandbox (op : Op) (outcomes : List Outcome)

/-- Where a call takes or gives back a slot, it stores the new function and the trampoline. -/
def Watched.store (w : Watched) (s : Callbacks.State) (trampoline : BitVec 64) : Watched where
  state := s
  last i := if s.callbacks i = w.state.callbacks i then w.last i else (s.callbacks i, trampoline)

def Watched.host (e : Engine) (address : Trampoline → BitVec 64) (w : Watched) : Call → Watched
  | .register kind fn a => w.store (register e address w.state a fn kind).2 (address kind)
  | .unregister fn => w.store (lfiBoxUnregisterCb e w.state fn) 0

def Watched.sandbox (e : Engine) (w : Watched) (op : Op) (outcomes : List Outcome) : Watched :=
  let u := apply e ⟨w.state.box, setOutcomes w.state.host outcomes⟩ op
  { w with state := { w.state with box := u.box, host := u.host } }

/-- `memfd_create` gives a file that nothing in the box shows. -/
def NewFile (e : Engine) (s : Callbacks.State) : Call → Prop
  | .register _ _ a => s.cbinfo.entries = 0 → ∀ fd, a.memfd = some fd → ∀ x, InBox s.box x → ∀ o,
      s.host.mem.cell e.opts.pagesize x ≠ .file fd o
  | .unregister _ => True

/-- The stores of the sandbox are in the box. -/
def StoresIn (box : LFIBox) : Op → Prop
  | .store a _ => InBox box a
  | _ => True

/-- The file that the operation maps is not one of the callbacks: `init_cb` closes those. -/
def OtherFile (e : Engine) (s : Callbacks.State) (op : Op) : Prop :=
  ∀ f, fileOf op = some f → ∀ x, x = s.cbinfo.aliasmap ∨ InBox s.box x → ∀ o,
    s.host.mem.target e.opts.pagesize x ≠ .file f o

def EntryStep (e : Engine) (address : Trampoline → BitVec 64) (w : Watched) (act : Act)
    (w' : Watched) : Prop :=
  match act with
  | .host c => c.Sound e w.state.box ∧ NewFile e w.state c ∧ w' = w.host e address c
  | .sandbox op outcomes =>
      Private op ∧ WholePages e op ∧ StoresIn w.state.box op ∧ OtherFile e w.state op ∧
        w' = w.sandbox e op outcomes

/-- A box as `lfi_box_new` gives it. -/
structure Begins (e : Engine) (r : Region) (w : Watched) : Prop where
  usable : Usable e r w.state
  blank : Blank w.state
  own : ∀ x, InBox w.state.box x → w.state.host.mem.cell e.opts.pagesize x = .own x
  last : ∀ i, w.last i = (0, 0)

/-- The sandbox can enter the code that `init_cb` has put at the entry of the slot. -/
structure Enterable (e : Engine) (s : Callbacks.State) (slot : Slot) : Prop where
  exec : ∀ j, j < 16 → (s.host.mem.prot ((entryAddr e s slot + j) / e.opts.pagesize)).exec = true
  code : s.host.mem.readRange e.opts.pagesize (entryAddr e s slot) 16 = entryCode e.target

/-- On arm64 the arguments of the sandbox do not name a page of the table. On x86-64 they may. -/
def SparesTable (e : Engine) (w : Watched) : Act → Prop
  | .host _ => True
  | .sandbox op _ => e.target = arm64 → w.state.cbinfo.entries ≠ 0 → ∀ off, off < dataSize e.target →
      ¬Names e.opts.pagesize op ((dataBase e w.state + off) / e.opts.pagesize)

/-- The verifier accepts nothing with entry code at the start of a bundle. -/
def RejectsEntries (e : Engine) : Prop :=
  ∀ base bytes k, e.lfivVerify base bytes = true → 32 ∣ base + k →
    (bytes.drop k).take 16 ≠ entryCode e.target

/-! The invariant. -/

/-- A store in the box changes what one address of the box shows. -/
def Distinct (e : Engine) (s : Callbacks.State) : Prop :=
  ∀ x y, InBox s.box x → InBox s.box y →
    s.host.mem.cell e.opts.pagesize x = s.host.mem.target e.opts.pagesize y → x = y

/-- The page of the words of a slot. -/
def slotPage (e : Engine) (s : Callbacks.State) (slot : Slot) : Nat :=
  (dataBase e s + targetOff e.target slot) / e.opts.pagesize

/-- The words of the slot are what the runtime has stored, and the sandbox cannot write them. -/
structure Honest (e : Engine) (w : Watched) (f : Int) (slot : Slot) : Prop where
  cells : ∀ k, k < 16 → w.state.host.mem.target e.opts.pagesize
    (dataBase e w.state + targetOff e.target slot + k) = .file f (targetOff e.target slot + k)
  locked : (w.state.host.mem.prot (slotPage e w.state slot)).write = false
  words : entryWords e.target (w.state.host.mem.files f) slot = w.last slot

/-- On x86-64, the page of the slot has been changed, and the entry cannot be entered. -/
structure Lost (e : Engine) (s : Callbacks.State) (slot : Slot) : Prop where
  target : e.target ≠ arm64
  page : (s.host.mem.prot (slotPage e s slot)).exec = false ∨
    (s.host.mem.prot (slotPage e s slot)).write = false ∧
      s.host.mem.readRange e.opts.pagesize (entryAddr e s slot) 16 ≠ entryCode e.target

/-- The table is in place. -/
structure Tabled (e : Engine) (r : Region) (w : Watched) (f : Int) : Prop where
  entries : w.state.cbinfo.entries ≠ 0
  accepts : r.Accepts (dataBase e w.state) (dataSize e.target)
  inside : ∀ slot j, j < 16 → InBox w.state.box (entryAddr e w.state slot + j)
  elsewhere : Elsewhere e w.state.box w.state.cbinfo.aliasmap (dataSize e.target)
  aliasCell : ∀ off, off < dataSize e.target →
    w.state.host.mem.target e.opts.pagesize (w.state.cbinfo.aliasmap + off) = .file f off
  only : ∀ x o, InBox w.state.box x → w.state.host.mem.cell e.opts.pagesize x = .file f o →
    x = dataBase e w.state + o
  free : ∀ i, w.state.callbacks i = 0 → w.last i = (0, 0)
  taken : e.target = arm64 → ∀ off, off < dataSize e.target →
    w.state.box.mm.table ((dataBase e w.state + off) / e.opts.pagesize) ≠ none
  slots : ∀ slot, Honest e w f slot ∨ Lost e w.state slot

structure WatchInv (e : Engine) (r : Region) (w : Watched) : Prop where
  usable : Usable e r w.state
  distinct : Distinct e w.state
  table : (Blank w.state ∧ ∀ i, w.last i = (0, 0)) ∨ ∃ f, Tabled e r w f

section

variable {e : Engine} {r : Region} {address : Trampoline → BitVec 64} {w w' : Watched}
  {s s' : Callbacks.State} {f : Int} {slot : Slot} {op : Op} {outcomes : List Outcome} {m m' : Memory}
  {ps n a j x y p : Nat}

/-- A block that pages are made of is in one page. -/
theorem div_eq_of_block (hn : n ∣ ps) (ha : n ∣ a) (hj : j < n) : (a + j) / ps = a / ps := by
  obtain ⟨c, rfl⟩ := hn
  obtain ⟨b, rfl⟩ := ha
  have hpos : 0 < n := Nat.zero_lt_of_lt hj
  rw [← Nat.div_div_eq_div_mul, ← Nat.div_div_eq_div_mul, Nat.mul_add_div hpos,
    Nat.div_eq_of_lt hj, Nat.add_zero, Nat.mul_div_cancel_left _ hpos]

theorem distinct_of_cellsFrom {F : Nat → Cell → Prop} (hd : Distinct e s)
    (hbox : ∀ x, InBox s'.box x → InBox s.box x)
    (hcells : CellsFrom e.opts.pagesize F noCells s.host.mem s'.host.mem)
    (hF : ∀ x y c, F x c → InBox s.box y → s.host.mem.target e.opts.pagesize y ≠ c) :
    Distinct e s' := by
  intro x y hx hy heq
  rcases hcells.target y with hy' | hy' | hfalse
  · rcases hcells.cell x with hx' | hx' | hfile
    · rw [hx', hy'] at heq
      exact hd x y (hbox x hx) (hbox y hy) heq
    · rw [hx', hy'] at heq
      exact (Memory.eq_of_target_own heq.symm).symm
    · rw [heq, hy'] at hfile
      exact absurd rfl (hF x y _ hfile (hbox y hy))
  · exact Memory.eq_of_cell_own (heq.trans hy')
  · exact hfalse.elim

theorem not_entryCode_of_vetted (hr : RejectsEntries e) (hv : Vetted e m p) (ha : 32 ∣ a)
    (hpage : ∀ j, j < 16 → (a + j) / e.opts.pagesize = p) :
    m.readRange e.opts.pagesize a 16 ≠ entryCode e.target := by
  obtain ⟨base, bytes, haccept, hbytes⟩ := hv
  have hle := (hbytes (a + 0) (hpage 0 (by omega))).1
  have hread : (bytes.drop (a - base)).take 16 = m.readRange e.opts.pagesize a 16 := by
    apply List.ext_getElem?
    intro i
    rw [List.getElem?_take, List.getElem?_drop]
    split
    · rename_i hi
      obtain ⟨-, hat⟩ := hbytes (a + i) (hpage i hi)
      rw [Memory.getElem?_readRange hi, ← hat]
      congr 1
      omega
    · rename_i hi
      simp [Memory.readRange, hi]
  rw [← hread]
  exact hr base bytes (a - base) haccept (by rwa [show base + (a - base) = a by omega])

namespace Tabled

variable (h : Tabled e r w f) (hu : Usable e r w.state) (hblock : 32 ∣ e.opts.pagesize)

include h hu hblock

theorem dvd_dataBase : 32 ∣ dataBase e w.state :=
  (hblock.trans (hu.works.region.pagesize ▸ dvd_rfl)).trans h.accepts.1

theorem word_page (slot : Slot) {k : Nat} (hk : k < 16) :
    (dataBase e w.state + targetOff e.target slot + k) / e.opts.pagesize =
      slotPage e w.state slot := by
  have hbase := h.dvd_dataBase hu hblock
  apply div_eq_of_block ((by decide : 16 ∣ 32).trans hblock) _ hk
  simp only [targetOff]
  split <;> omega

/-- On x86-64 the code of an entry is in the page of its words. -/
theorem entry_page (harm : e.target ≠ arm64) (slot : Slot) (hj : j < 16) :
    32 ∣ entryAddr e w.state slot ∧
      (entryAddr e w.state slot + j) / e.opts.pagesize = slotPage e w.state slot := by
  have hbase := h.dvd_dataBase hu hblock
  rw [dataBase, if_neg harm] at hbase
  have hentry : 32 ∣ entryAddr e w.state slot := by
    rw [entryAddr, entrySize, if_neg harm]
    omega
  refine ⟨hentry, ?_⟩
  rw [div_eq_of_block hblock hentry (by omega), slotPage, dataBase_target, if_neg harm,
    div_eq_of_block hblock hentry (by omega)]

omit hblock in
theorem word_inBox (slot : Slot) {k : Nat} (hk : k < 16) :
    InBox w.state.box (dataBase e w.state + targetOff e.target slot + k) := by
  have hlt := targetOff_lt e.target slot
  rw [Nat.add_assoc]
  exact inBox_of_accepts hu.works h.accepts (Nat.le_add_right ..) (by omega)

end Tabled

theorem otherFile_of_none (hnone : fileOf op = none) : OtherFile e s op := by
  intro f hfile
  rw [hnone] at hfile
  cases hfile

/-! The sandbox. -/

theorem served_apply {s : ExecVerified.State} (hw : Works e r s.box)
    (hstore : ∀ a b, op ≠ .store a b) :
    EngineRuns.Served e r s.box s.host.mem (apply e s op).box (apply e s op).host.mem := by
  cases op with
  | mapany => exact EngineRuns.served_mapany hw s.host ..
  | mapat => exact EngineRuns.served_mapat hw s.host ..
  | mprotect => exact EngineRuns.served_mprotect hw s.host ..
  | munmap => exact EngineRuns.served_munmap hw s.host ..
  | store a b => exact absurd rfl (hstore a b)

/-- What an operation of the sandbox, other than a store, does to the box. -/
structure Moved (e : Engine) (r : Region) (file : Option Int) (w w' : Watched) : Prop where
  last : w'.last = w.last
  cbinfo : w'.state.cbinfo = w.state.cbinfo
  callbacks : w'.state.callbacks = w.state.callbacks
  served : EngineRuns.Served e r w.state.box w.state.host.mem w'.state.box w'.state.host.mem
  cells : CellsFrom e.opts.pagesize (cellsOf file) noCells w.state.host.mem w'.state.host.mem
  pages : ∀ p, PageMove e p w.state.host.mem w'.state.host.mem
  files : w'.state.host.mem.files = w.state.host.mem.files

theorem moved_sandbox (hu : Usable e r w.state) (hv : e.opts.noVerify = false) (hpriv : Private op)
    (hwhole : WholePages e op) (hstore : ∀ a b, op ≠ .store a b) (outcomes : List Outcome) :
    Moved e r (fileOf op) w (w.sandbox e op outcomes) :=
  let s : ExecVerified.State := ⟨w.state.box, setOutcomes w.state.host outcomes⟩
  ⟨rfl, rfl, rfl, served_apply (s := s) hu.works hstore, cellsFrom_apply s hpriv,
    fun _ => pageMove_apply hv s hwhole hstore, files_apply s hstore⟩

namespace Moved

variable {file : Option Int} (hm : Moved e r file w w')

include hm

theorem inBox_iff (x : Nat) : InBox w'.state.box x ↔ InBox w.state.box x := by
  rw [hm.served.box_eq]
  rfl

theorem dataBase_eq : dataBase e w'.state = dataBase e w.state := by
  rw [dataBase, dataBase, hm.cbinfo]

theorem entryAddr_eq (slot : Slot) : entryAddr e w'.state slot = entryAddr e w.state slot := by
  rw [entryAddr, entryAddr, hm.cbinfo]

theorem slotPage_eq (slot : Slot) : slotPage e w'.state slot = slotPage e w.state slot := by
  rw [slotPage, slotPage, hm.dataBase_eq]

theorem usable (hu : Usable e r w.state) : Usable e r w'.state := by
  refine ⟨hm.served.works, ?_⟩
  rw [hm.served.box_eq]
  exact hu.pos

end Moved

/-- A slot whose page is as before. -/
theorem Honest.of_same {file : Option Int} (h : Tabled e r w f) (hu : Usable e r w.state)
    (hblock : 32 ∣ e.opts.pagesize) (hh : Honest e w f slot) (hm : Moved e r file w w')
    (hsame : SamePage e.opts.pagesize (slotPage e w.state slot) w.state.host.mem w'.state.host.mem) :
    Honest e w' f slot := by
  refine ⟨fun k hk => ?_, ?_, ?_⟩
  · rw [hm.dataBase_eq, hsame.target_eq (h.word_page hu hblock slot hk)]
    exact hh.cells k hk
  · rw [hm.slotPage_eq, hsame.prot_eq]
    exact hh.locked
  · rw [hm.files, hm.last]
    exact hh.words

theorem Tabled.slot_moved {file : Option Int} (h : Tabled e r w f) (hu : Usable e r w.state)
    (hblock : 32 ∣ e.opts.pagesize) (hr : RejectsEntries e) (harm : e.target ≠ arm64)
    (hm : Moved e r file w w') (slot : Slot) : Honest e w' f slot ∨ Lost e w'.state slot := by
  have hentry := fun j hj => h.entry_page hu hblock harm slot (j := j) hj
  have hpage : ∀ j, j < 16 →
      (entryAddr e w.state slot + j) / e.opts.pagesize = slotPage e w.state slot :=
    fun j hj => (hentry j hj).2
  rcases hm.pages (slotPage e w.state slot) with hsame | hexec | ⟨hwrite, hvet⟩
  · rcases h.slots slot with hh | ⟨-, hlost⟩
    · exact .inl (hh.of_same h hu hblock hm hsame)
    · right
      refine ⟨harm, ?_⟩
      rw [hm.slotPage_eq, hm.entryAddr_eq, hsame.prot_eq]
      refine hlost.imp_right fun ⟨hwrite, hne⟩ => ⟨hwrite, ?_⟩
      rwa [Memory.readRange_congr fun a hlo hhi => hsame.bytes a ?_]
      have hat := hpage (a - entryAddr e w.state slot) (by omega)
      rwa [Nat.add_sub_cancel' hlo] at hat
  · exact .inr ⟨harm, .inl (hm.slotPage_eq slot ▸ hexec)⟩
  · refine .inr ⟨harm, .inr ⟨hm.slotPage_eq slot ▸ hwrite, ?_⟩⟩
    rw [hm.entryAddr_eq]
    exact not_entryCode_of_vetted hr hvet (hentry 0 (by omega)).1 hpage

theorem Tabled.moved {file : Option Int} (h : Tabled e r w f) (hu : Usable e r w.state)
    (hblock : 32 ∣ e.opts.pagesize) (hr : e.target ≠ arm64 → RejectsEntries e)
    (hm : Moved e r file w w') (hother : file ≠ some f)
    (hspared : e.target = arm64 → ∀ off, off < dataSize e.target →
      let p := (dataBase e w.state + off) / e.opts.pagesize
      SamePage e.opts.pagesize p w.state.host.mem w'.state.host.mem ∧
        w'.state.box.mm.table p = w.state.box.mm.table p) : Tabled e r w' f := by
  have hbase := hm.dataBase_eq
  refine ⟨?_, ?_, ?_, ?_, ?_, ?_, ?_, ?_, fun slot => ?_⟩
  · rw [hm.cbinfo]
    exact h.entries
  · rw [hbase]
    exact h.accepts
  · intro slot j hj
    rw [hm.entryAddr_eq, hm.inBox_iff]
    exact h.inside slot j hj
  · rw [hm.cbinfo]
    refine ⟨h.elsewhere.aligned, fun x hx => ?_⟩
    rw [← InBox, hm.inBox_iff]
    exact h.elsewhere.outside x hx
  · intro off hoff
    rw [hm.cbinfo, ← h.aliasCell off hoff]
    apply Memory.target_congr
    rw [Memory.backing, Memory.backing, hm.served.confined.pages]
    rw [EngineRuns.inSpan_range_iff hu.works]
    exact h.elsewhere.outside _ (inSpan_of_mem (hu.works.region.pagesize ▸ r.pagesize_pos)
      (Nat.le_add_right ..) (by omega))
  · intro x o hx hcell
    rw [hbase]
    rcases hm.cells.cell x with heq | heq | hfile
    · exact h.only x o ((hm.inBox_iff x).mp hx) (heq ▸ hcell)
    · rw [heq] at hcell
      cases hcell
    · obtain ⟨g, _, hfile, heq⟩ := hfile
      rw [heq] at hcell
      exact absurd ((Cell.file.inj hcell).1 ▸ hfile) hother
  · intro i hi
    rw [hm.last]
    exact h.free i (hm.callbacks ▸ hi)
  · intro harm off hoff
    rw [hbase, (hspared harm off hoff).2]
    exact h.taken harm off hoff
  · by_cases harm : e.target = arm64
    · rcases h.slots slot with hh | hlost
      · have hlt := targetOff_lt e.target slot
        exact .inl (hh.of_same h hu hblock hm (hspared harm _ (by omega)).1)
      · exact absurd harm hlost.target
    · exact h.slot_moved hu hblock (hr harm) harm hm slot

/-! A store of the sandbox. -/

/-- No store in the box reaches what cannot be written at its own address. -/
theorem read_store_locked (hd : Distinct e s) (hx : InBox s.box x) (ha : InBox s.box a)
    (hlocked : (s.host.mem.prot (x / e.opts.pagesize)).write = false) (b : UInt8) :
    (s.host.mem.store e.opts.pagesize a b).read e.opts.pagesize x =
      s.host.mem.read e.opts.pagesize x := by
  rcases eq_or_ne x a with rfl | hne
  · rw [Memory.store_eq_self hlocked]
  · exact Memory.read_store_of_ne hne fun hcell => hne (hd x a hx ha hcell)

theorem entryWords_congr {F F' : Nat → UInt8} (t : Target) (slot : Slot)
    (h : ∀ k, k < 16 → F' (targetOff t slot + k) = F (targetOff t slot + k)) :
    entryWords t F' slot = entryWords t F slot := by
  have hword : ∀ o, (∀ k, k < 8 → F' (o + k) = F (o + k)) → wordAt F' o = wordAt F o := by
    intro o ho
    rw [wordAt, wordAt, bytesAt_congr ho]
  rw [entryWords, entryWords, hword _ fun k hk => h k (by omega), hword _ fun k hk => ?_]
  rw [trampolineOff, Nat.add_assoc]
  exact h (8 + k) (by omega)

theorem Tabled.stored (h : Tabled e r w f) (hu : Usable e r w.state) (hd : Distinct e w.state)
    (hblock : 32 ∣ e.opts.pagesize) (ha : InBox w.state.box a) (b : UInt8) (outcomes : List Outcome) :
    Tabled e r (w.sandbox e (.store a b) outcomes) f := by
  have hpages : (w.state.host.mem.store e.opts.pagesize a b).pages = w.state.host.mem.pages :=
    Memory.pages_store a b
  have htarget : ∀ x, (w.state.host.mem.store e.opts.pagesize a b).target e.opts.pagesize x =
      w.state.host.mem.target e.opts.pagesize x := fun x => Memory.target_store a x b
  have hprot : ∀ p, (w.state.host.mem.store e.opts.pagesize a b).prot p =
      w.state.host.mem.prot p := fun p => Memory.prot_eq_of_pages (congrFun hpages p)
  refine ⟨h.entries, h.accepts, h.inside, h.elsewhere,
    fun off hoff => (htarget _).trans (h.aliasCell off hoff), fun x o hx hc => ?_, h.free, h.taken,
    fun slot => ?_⟩
  · have hcells := @CellsFrom.store noCells noCells e.opts.pagesize w.state.host.mem a b
    rcases hcells.cell x with heq | heq | hfalse
    · exact h.only x o hx (heq.symm.trans hc)
    · cases heq.symm.trans hc
    · exact hfalse.elim
  rcases h.slots slot with hh | ⟨harm, hlost⟩
  · refine .inl ⟨fun k hk => (htarget _).trans (hh.cells k hk), ?_, ?_⟩
    · exact (congrArg Prot.write (hprot _)).trans hh.locked
    · refine (entryWords_congr e.target slot fun k hk => ?_).trans hh.words
      have hread := read_store_locked hd (h.word_inBox hu slot hk) ha
        (by rw [h.word_page hu hblock slot hk]; exact hh.locked) b
      rw [Memory.read, Memory.read, Memory.cell_eq_target ((htarget _).trans (hh.cells k hk)),
        Memory.cell_eq_target (hh.cells k hk)] at hread
      exact hread
  · refine .inr ⟨harm, ?_⟩
    rcases hlost with hexec | ⟨hwrite, hne⟩
    · exact .inl ((congrArg Prot.exec (hprot _)).trans hexec)
    · refine .inr ⟨(congrArg Prot.write (hprot _)).trans hwrite, ?_⟩
      have hbytes := @Memory.readRange_congr e.opts.pagesize w.state.host.mem
        (w.state.host.mem.store e.opts.pagesize a b) (entryAddr e w.state slot) 16
          fun x hlo hhi => by
            obtain ⟨j, rfl⟩ := Nat.exists_eq_add_of_le hlo
            have hj : j < 16 := by omega
            exact read_store_locked hd (h.inside slot j hj) ha
              (by rw [(h.entry_page hu hblock harm slot hj).2]; exact hwrite) b
      exact fun heq => hne (hbytes.symm.trans heq)

/-! A call of the host. -/

theorem Tabled.assigned (h : Tabled e r w f) {i₀ : Slot} {fn target trampoline : BitVec 64}
    (hstate : w'.state = assign e w.state i₀ fn target trampoline)
    (hlast : ∀ i, w'.last i = if i = i₀ then (target, trampoline) else w.last i)
    (hfree : fn = 0 → target = 0 ∧ trampoline = 0) : Tabled e r w' f := by
  have hassign := setEntry_of_alias h.aliasCell i₀ target trampoline
  obtain ⟨s', last⟩ := w'
  dsimp only at hstate hlast
  rw [assign, hassign] at hstate
  subst hstate
  refine ⟨h.entries, h.accepts, h.inside, h.elsewhere, h.aliasCell, h.only, fun i hi => ?_, h.taken,
    fun slot => ?_⟩
  · dsimp only at hi ⊢
    rw [hlast]
    rw [Function.update_apply] at hi
    split_ifs at hi ⊢
    · obtain ⟨rfl, rfl⟩ := hfree hi
      rfl
    · exact h.free i hi
  · rcases h.slots slot with hh | ⟨harm, hlost⟩
    · refine .inl ⟨hh.cells, hh.locked, ?_⟩
      dsimp only
      rw [Function.update_self, entryWords_setWords, hlast, hh.words]
    · refine .inr ⟨harm, hlost.imp_right fun hpage => ⟨hpage.1, fun heq => hpage.2 ?_⟩⟩
      refine (Eq.symm ?_).trans heq
      refine Memory.readRange_files fun j hj o hcell => ?_
      apply setWords_of_not
      have hx := h.only _ o (h.inside slot j hj) hcell
      rw [dataBase, entryAddr, entrySize, if_neg harm, if_neg harm] at hx
      simp only [targetOff, if_neg harm]
      omega

theorem cellsFrom_assign (e : Engine) (s : Callbacks.State) (i₀ : Slot)
    (fn target trampoline : BitVec 64) : CellsFrom e.opts.pagesize noCells noCells s.host.mem
      (assign e s i₀ fn target trampoline).host.mem :=
  (CellsFrom.writeBytes ..).trans (.writeBytes ..)

theorem Distinct.of_cells (hd : Distinct e s) (hbox : s'.box = s.box)
    (hcells : CellsFrom e.opts.pagesize noCells noCells s.host.mem s'.host.mem) : Distinct e s' :=
  distinct_of_cellsFrom hd (fun _ hx => hbox ▸ hx) hcells fun _ _ _ hfalse => hfalse.elim

theorem store_self (w : Watched) (trampoline : BitVec 64) : w.store w.state trampoline = w := by
  obtain ⟨s, last⟩ := w
  simp [Watched.store]

/-- A slot is taken. -/
theorem store_taken {fn : BitVec 64} (hfn : fn ≠ 0) (hfree : w.state.callbacks slot = 0)
    (target trampoline : BitVec 64) (i : Slot) :
    (w.store (assign e w.state slot fn target trampoline) trampoline).last i =
      if i = slot then (fn, trampoline) else w.last i := by
  have hcallbacks : (assign e w.state slot fn target trampoline).callbacks i =
      if i = slot then fn else w.state.callbacks i := Function.update_apply ..
  simp only [Watched.store, hcallbacks]
  split_ifs with heq hsame hsame
  · rw [heq, hfree] at hsame
    exact absurd hsame hfn
  · rfl
  · rfl
  · exact absurd rfl hsame

/-- A slot is given back. -/
theorem store_released (hfree : ∀ i, w.state.callbacks i = 0 → w.last i = (0, 0)) (i : Slot) :
    (w.store (assign e w.state slot 0 0 0) 0).last i = if i = slot then (0, 0) else w.last i := by
  have hcallbacks : (assign e w.state slot 0 0 0).callbacks i =
      if i = slot then 0 else w.state.callbacks i := Function.update_apply ..
  simp only [Watched.store, hcallbacks]
  split_ifs with heq hsame hsame
  · exact hfree i hsame.symm
  · rfl
  · rfl
  · exact absurd rfl hsame

variable (address) in
/-- A call of the host leaves the pages of the box, once the table is there. -/
theorem Tabled.host (h : Tabled e r w f) {c : Call} (hc : c.Sound e w.state.box) :
    Tabled e r (w.host e address c) f ∧ (w.host e address c).state.box = w.state.box ∧
      CellsFrom e.opts.pagesize noCells noCells w.state.host.mem
        (w.host e address c).state.host.mem := by
  cases c with
  | register kind fn a =>
      rw [Watched.host, register_eq]
      rcases @registerCb_cases e address w.state h.entries a fn kind with
        ⟨slot, -, heq⟩ | ⟨-, ⟨-, heq⟩ | ⟨slot, hslot, heq⟩⟩
      · rw [heq, store_self]
        exact ⟨h, rfl, .refl _⟩
      · rw [heq, store_self]
        exact ⟨h, rfl, .refl _⟩
      · rw [heq]
        refine ⟨h.assigned rfl (store_taken hc.1 hslot fn _) (fun hzero => absurd hzero hc.1), rfl,
          cellsFrom_assign ..⟩
  | unregister fn =>
      rw [Watched.host]
      rcases unregister_cases e w.state fn with ⟨-, heq⟩ | ⟨slot, -, heq⟩
      · rw [heq, store_self]
        exact ⟨h, rfl, .refl _⟩
      · rw [heq]
        exact ⟨h.assigned rfl (store_released h.free) (fun _ => ⟨rfl, rfl⟩), rfl,
          cellsFrom_assign ..⟩

/-! The first registration. -/

theorem distinct_of_setup {a : Answers} {u : Bool × Callbacks.State} (hd : Distinct e s)
    (hbox : ∃ mm, u.2.box = { s.box with mm := mm }) (hset : TableSetup e r s a u)
    (hnew : ∀ fd, a.memfd = some fd → ∀ x, InBox s.box x → ∀ o,
      s.host.mem.cell e.opts.pagesize x ≠ .file fd o) : Distinct e u.2 := by
  obtain ⟨mm, hbox⟩ := hbox
  obtain ⟨base, hcells, -⟩ := hset.cells
  intro x y hx hy heq
  rw [hbox] at hx hy
  rcases hcells.cell x with hx' | hx' | hx'
  · rcases hcells.target y with hy' | hy' | hy'
    · rw [hx', hy'] at heq
      exact hd x y hx hy heq
    · exact Memory.eq_of_cell_own (heq.trans hy')
    · obtain ⟨fd, hfd, -, hfile⟩ := hy' hy
      rw [hx', hfile] at heq
      exact absurd heq (hnew fd hfd x hx _)
  · exact (Memory.eq_of_target_own (heq.symm.trans hx')).symm
  · obtain ⟨fd, hfd, hle, hfile⟩ := hx' hx
    rw [hfile] at heq
    rcases hcells.target y with hy' | hy' | hy'
    · rw [hy'] at heq
      exact absurd (Memory.cell_eq_target heq.symm) (hnew fd hfd y hy _)
    · rw [hy'] at heq
      cases heq
    · obtain ⟨fd', hfd', hle', hfile'⟩ := hy' hy
      rw [hfile'] at heq
      have hoff := (Cell.file.inj heq).2
      omega

theorem tabled_of_setup {a : Answers} {u : Bool × Callbacks.State}
    (hbox : ∃ mm, u.2.box = { s.box with mm := mm }) (ha : a.Sound e s.box)
    (hset : TableSetup e r s a u) (hok : u.1 = true)
    (hnew : ∀ fd, a.memfd = some fd → ∀ x, InBox s.box x → ∀ o,
      s.host.mem.cell e.opts.pagesize x ≠ .file fd o)
    {last : Slot → BitVec 64 × BitVec 64} (hlast : ∀ i, last i = (0, 0)) :
    ∃ f, Tabled e r ⟨u.2, last⟩ f := by
  obtain ⟨mm, hbox⟩ := hbox
  obtain ⟨base, hcells, hbase⟩ := hset.cells
  have hmade := hset.made hok
  obtain ⟨fd, hfd, hready, hzero⟩ := hmade.file
  have hlt := targetOff_lt e.target
  refine ⟨fd, hready.entries, hmade.accepts, hmade.inside, ?_, hready.aliasCell, ?_,
    fun i _ => hlast i, fun _ => hmade.taken, fun slot => .inl ⟨fun k hk => ?_, ?_, ?_⟩⟩
  · have hels := ha _ hmade.aliasmap
    refine ⟨hels.aligned, fun x hx => ?_⟩
    dsimp only
    rw [hbox]
    exact hels.outside x hx
  · intro x o hx hcell
    dsimp only at hx hcell ⊢
    rw [hbox] at hx
    rcases hcells.cell x with heq | heq | hfile
    · exact absurd (heq.symm.trans hcell) (hnew fd hfd x hx o)
    · rw [heq] at hcell
      cases hcell
    · obtain ⟨fd', hfd', hle, heq⟩ := hfile hx
      have hoff := (Cell.file.inj (heq.symm.trans hcell)).2
      rw [hbase hok] at hle hoff
      omega
  · have hdata := hready.dataCell (targetOff e.target slot + k) (by have := hlt slot; omega)
    rwa [← Nat.add_assoc] at hdata
  · exact hmade.locked _ (by have := hlt slot; omega)
  · exact (hzero slot).trans (hlast slot).symm

theorem store_same {trampoline : BitVec 64} (hcallbacks : s.callbacks = w.state.callbacks) :
    w.store s trampoline = ⟨s, w.last⟩ := by
  simp [Watched.store, hcallbacks]

theorem Blank.of_callbacks (hb : Blank w.state) (hs : Blank s) (trampoline : BitVec 64) :
    w.store s trampoline = ⟨s, w.last⟩ :=
  store_same (funext fun i => (hs.callbacks i).trans (hb.callbacks i).symm)

/-- A call of the host on a box without a table. -/
theorem WatchInv.host_blank (hi : WatchInv e r w) (hb : Blank w.state)
    (hlast : ∀ i, w.last i = (0, 0)) {c : Call} (hc : c.Sound e w.state.box)
    (hnew : NewFile e w.state c) : WatchInv e r (w.host e address c) := by
  cases c with
  | register kind fn a =>
      have hu := hi.usable
      have hinit := initCb_spec hu.works hu.pos hc.2
      have hset := setup_initCb hu.works hu.pos hc.2
      obtain ⟨mm, hbox⟩ := hinit.box_eq
      have husable : Usable e r (initCb e w.state a).2 := by
        refine ⟨hinit.works, ?_⟩
        rw [hbox]
        exact hu.pos
      have hdistinct := distinct_of_setup hi.distinct ⟨mm, hbox⟩ hset (hnew hb.entries)
      have hcallbacks := hinit.callbacks
      have hreg := @registerCb_init e address _ hb.entries a fn kind
      rw [Watched.host, register_eq]
      cases hok : (initCb e w.state a).1 with
      | false =>
          rw [hok] at hreg
          rw [hreg (by simp)]
          simp only [Bool.false_eq_true, if_false]
          rw [store_same hcallbacks]
          refine ⟨husable, hdistinct, .inl ⟨⟨?_, fun i => ?_⟩, hlast⟩⟩
          · exact (hinit.entries hok).trans hb.entries
          · exact (congrFun hcallbacks i).trans (hb.callbacks i)
      | true =>
          obtain ⟨f, htabled⟩ := tabled_of_setup ⟨mm, hbox⟩ hc.2 hset hok (hnew hb.entries) hlast
          rw [hok] at hreg
          rw [hreg fun _ => htabled.entries, if_pos rfl, ← register_eq]
          have hsound : (Call.register kind fn a).Sound e (initCb e w.state a).2.box := by
            refine ⟨hc.1, fun start hstart => ⟨(hc.2 start hstart).aligned, ?_⟩⟩
            rw [hbox]
            exact (hc.2 start hstart).outside
          obtain ⟨hafter, hboxes, hcells⟩ := htabled.host address hsound
          have heq : w.store (register e address (initCb e w.state a).2 a fn kind).2 (address kind) =
              Watched.host e address ⟨(initCb e w.state a).2, w.last⟩ (.register kind fn a) := by
            simp only [Watched.host, Watched.store, hcallbacks]
          rw [heq]
          exact ⟨husable.of_box hboxes, hdistinct.of_cells hboxes hcells, .inr ⟨f, hafter⟩⟩
  | unregister fn =>
      obtain ⟨hblank, hbox⟩ := @unregister_of_blank e w.state hb fn
      have hcells : CellsFrom e.opts.pagesize noCells noCells w.state.host.mem
          (lfiBoxUnregisterCb e w.state fn).host.mem := by
        rcases unregister_cases e w.state fn with ⟨-, heq⟩ | ⟨slot, -, heq⟩
        · rw [heq]
          exact .refl _
        · rw [heq]
          exact cellsFrom_assign ..
      rw [Watched.host]
      generalize lfiBoxUnregisterCb e w.state fn = s' at hblank hbox hcells ⊢
      rw [hb.of_callbacks hblank]
      exact ⟨hi.usable.of_box hbox, hi.distinct.of_cells hbox hcells, .inl ⟨hblank, hlast⟩⟩

theorem WatchInv.host (hi : WatchInv e r w) {c : Call} (hc : c.Sound e w.state.box)
    (hnew : NewFile e w.state c) : WatchInv e r (w.host e address c) := by
  rcases hi.table with ⟨hb, hlast⟩ | ⟨f, h⟩
  · exact hi.host_blank hb hlast hc hnew
  · obtain ⟨hafter, hbox, hcells⟩ := h.host address hc
    exact ⟨hi.usable.of_box hbox, hi.distinct.of_cells hbox hcells, .inr ⟨f, hafter⟩⟩

theorem WatchInv.sandbox (hi : WatchInv e r w) (hv : e.opts.noVerify = false)
    (hblock : 32 ∣ e.opts.pagesize) (hr : e.target ≠ arm64 → RejectsEntries e)
    (hpriv : Private op) (hwhole : WholePages e op) (hin : StoresIn w.state.box op)
    (hother : OtherFile e w.state op) (hok : SparesTable e w (.sandbox op outcomes)) :
    WatchInv e r (w.sandbox e op outcomes) := by
  rcases Classical.em (∃ a b, op = .store a b) with ⟨a, b, rfl⟩ | hstore
  · refine ⟨hi.usable.of_box rfl, hi.distinct.of_cells rfl (.store ..), ?_⟩
    · rcases hi.table with ⟨hb, hlast⟩ | ⟨f, h⟩
      · exact .inl ⟨⟨hb.entries, hb.callbacks⟩, hlast⟩
      · exact .inr ⟨f, h.stored hi.usable hi.distinct hblock hin b outcomes⟩
  · have hstore : ∀ a b, op ≠ .store a b := fun a b heq => hstore ⟨a, b, heq⟩
    have hm := moved_sandbox hi.usable hv hpriv hwhole hstore outcomes
    refine ⟨hm.usable hi.usable, distinct_of_cellsFrom hi.distinct
      (fun x => (hm.inBox_iff x).mp) hm.cells ?_, ?_⟩
    · rintro x y _ ⟨f, o, hfile, rfl⟩ hy
      exact hother f hfile y (.inr hy) o
    rcases hi.table with ⟨hb, hlast⟩ | ⟨f, h⟩
    · exact .inl ⟨⟨hb.entries, hb.callbacks⟩, hlast⟩
    · have hne : fileOf op ≠ some f := fun hfile =>
        hother f hfile _ (.inl rfl) 0 (h.aliasCell 0 (dataSize_pos _))
      refine .inr ⟨f, h.moved hi.usable hblock hr hm hne fun harm off hoff => ?_⟩
      have hspares := @spares_apply e _ r ⟨w.state.box, setOutcomes w.state.host outcomes⟩
        hi.usable.works op (h.taken harm off hoff) (hok harm h.entries off hoff) hstore
      exact hspares

theorem WatchInv.step (hi : WatchInv e r w) (hv : e.opts.noVerify = false)
    (hblock : 32 ∣ e.opts.pagesize) (hr : e.target ≠ arm64 → RejectsEntries e) {act : Act}
    (hok : SparesTable e w act) (hstep : EntryStep e address w act w') : WatchInv e r w' := by
  cases act with
  | host c =>
      obtain ⟨hc, hnew, rfl⟩ := hstep
      exact hi.host hc hnew
  | sandbox op outcomes =>
      obtain ⟨hpriv, hwhole, hin, hother, rfl⟩ := hstep
      exact hi.sandbox hv hblock hr hpriv hwhole hin hother hok

theorem Begins.watchInv (hb : Begins e r w) : WatchInv e r w := by
  refine ⟨hb.usable, fun x y hx hy heq => ?_, .inl ⟨hb.blank, hb.last⟩⟩
  rw [hb.own x hx] at heq
  exact (Memory.eq_of_target_own heq.symm).symm

theorem watchInv_of_reaches {w₀ : Watched} (hb : Begins e r w₀) (hv : e.opts.noVerify = false)
    (hblock : 32 ∣ e.opts.pagesize) (hr : e.target ≠ arm64 → RejectsEntries e)
    (hrun : Reaches (EntryStep e address) (SparesTable e) w₀ w) : WatchInv e r w :=
  hrun.invariant hb.watchInv fun _ _ _ hi hok hstep => hi.step hv hblock hr hok hstep

/-- The entry of a slot whose words show the file. -/
theorem branch_of_cells (hcells : ∀ k, k < 16 → s.host.mem.target e.opts.pagesize
      (dataBase e s + targetOff e.target slot + k) = .file f (targetOff e.target slot + k))
    (hcode : s.host.mem.readRange e.opts.pagesize (entryAddr e s slot) 16 = entryCode e.target) :
    branch e s.host.mem (entryAddr e s slot) =
      some (entryWords e.target (s.host.mem.files f) slot) := by
  rw [branch_of_code hcode, entryWords, Memory.load64_file, Memory.load64_file]
  · intro k hk
    have hcell := Memory.cell_eq_target (hcells (8 + k) (by omega))
    rwa [← Nat.add_assoc, ← Nat.add_assoc, Nat.add_assoc (dataBase e s)] at hcell
  · exact fun k hk => Memory.cell_eq_target (hcells k (by omega))

/-- An entry that the sandbox can enter leads where the runtime has last pointed it: on
x86-64 whatever the sandbox does to its memory, and on arm64 as long as it leaves the pages
of the table alone. -/
theorem entries_honest {w₀ : Watched} (hb : Begins e r w₀) (hv : e.opts.noVerify = false)
    (hblock : 32 ∣ e.opts.pagesize) (hr : e.target ≠ arm64 → RejectsEntries e)
    (hrun : Reaches (EntryStep e address) (SparesTable e) w₀ w)
    (hentries : w.state.cbinfo.entries ≠ 0) (henter : Enterable e w.state slot) :
    branch e w.state.host.mem (entryAddr e w.state slot) = some (w.last slot) := by
  have hi := watchInv_of_reaches hb hv hblock hr hrun
  rcases hi.table with ⟨hblank, -⟩ | ⟨f, h⟩
  · exact absurd hblank.entries hentries
  · rcases h.slots slot with hh | ⟨harm, hexec | ⟨-, hne⟩⟩
    · rw [branch_of_cells hh.cells henter.code, hh.words]
    · have hpage := (h.entry_page hi.usable hblock harm slot (j := 0) (by omega)).2
      rw [← hpage, henter.exec 0 (by omega)] at hexec
      cases hexec
    · exact absurd henter.code hne

/-! arm64: the sandbox writes the table. -/

/-- The sandbox changes a protection, or stores a byte. -/
def BySandbox (_ : Watched) : Act → Prop
  | .sandbox (.mprotect _ _ _) _ => True
  | .sandbox (.store _ _) _ => True
  | _ => False

variable (address) in
/-- The sandbox stores bytes where it may write. -/
theorem reaches_stores (bs : List UInt8) (hin : ∀ k, k < bs.length → InBox w.state.box (a + k))
    (hwrite : ∀ k, k < bs.length →
      (w.state.host.mem.prot ((a + k) / e.opts.pagesize)).write = true) :
    Reaches (EntryStep e address) BySandbox w { w with
      state.host.mem := w.state.host.mem.writeBytes e.opts.pagesize a bs } := by
  induction bs generalizing a w with
  | nil => exact .refl _
  | cons b bs ih =>
      have hstore : w.state.host.mem.store e.opts.pagesize a b =
          w.state.host.mem.write e.opts.pagesize a b := if_pos (hwrite 0 (by simp))
      have hfirst : EntryStep e address w (.sandbox (.store a b) w.state.host.outcomes)
          { w with state.host.mem := w.state.host.mem.write e.opts.pagesize a b } := by
        refine ⟨trivial, trivial, hin 0 (by simp), otherFile_of_none rfl, ?_⟩
        rw [← hstore]
        rfl
      have hrest := @ih { w with state.host.mem := w.state.host.mem.write e.opts.pagesize a b }
        (a + 1) (fun k hk => ?_) fun k hk => ?_
      · exact ((Reaches.refl _).tail (l := Act.sandbox (.store a b) w.state.host.outcomes) trivial
          hfirst).trans hrest
      · have hnext := hin (k + 1) (by simpa using hk)
        rwa [Nat.add_comm k, ← Nat.add_assoc] at hnext
      · have hnext := hwrite (k + 1) (by simpa using hk)
        rw [Nat.add_comm k, ← Nat.add_assoc] at hnext
        rw [← hnext, Memory.prot_write]

/-- A host call that gives the pages of the box a protection without execution. -/
theorem host_boxMprotect {box : LFIBox} {h : Host} {addr size : Nat} {prot : BitVec 32}
    (hw : Works e r box) (hacc : r.Accepts addr size) (hsize : e.opts.pagesize ∣ size)
    (hexec : has prot LFI_PROT_EXEC = false) (hok : h.outcomes = []) :
    (boxMprotectLocked e box h addr size prot false).2.2.mem =
      h.mem.mprotect e.opts.pagesize addr size (hostProt e.target prot) := by
  have hal : addr % e.opts.pagesize = 0 := by
    rw [hw.region.pagesize]
    exact Nat.mod_eq_zero_of_dvd hacc.1
  have hargs : ¬(size = 0 ∨ addr % e.opts.pagesize ≠ 0 ∨ size % e.opts.pagesize ≠ 0) := by
    have hpos := hacc.2.1
    have hmod := Nat.mod_eq_zero_of_dvd hsize
    omega
  have hver : protectverify e h addr size prot false =
      (true, used h (h.mem.mprotect e.opts.pagesize addr size (hostProt e.target prot))) := by
    have hskip : skipsVerifier e prot (false || e.opts.noVerify) = true := by
      simp [skipsVerifier, hexec]
    simp only [protectverify, hskip, if_true, protectmem]
    exact mprotect_ok (by rw [next, hok]; rfl) hal
  simp only [boxMprotectLocked, if_neg hargs, bufvalid_of_accepts hw hacc, hver, Bool.not_true,
    Bool.false_eq_true, if_false]
  split <;> rfl

/-- The page of an address of the box. -/
theorem accepts_page {box : LFIBox} (hw : Works e r box) (hx : InBox box x) :
    r.Accepts (x / e.opts.pagesize * e.opts.pagesize) e.opts.pagesize := by
  have hcontains := (hw.region.contains_div_iff x).mpr hx
  have hone : r.pages e.opts.pagesize = 1 := by
    rw [hw.region.pagesize, ← Nat.one_mul r.pagesize, r.pages_mul]
  refine ⟨?_, ?_, ?_⟩
  · rw [hw.region.pagesize]
    exact Nat.dvd_mul_left _ _
  · exact hw.region.pagesize ▸ r.pagesize_pos
  · rw [hone, ← hw.region.pagesize, hw.region.page_div]
    exact hcontains

variable (address) in
/-- The sandbox overwrites the words of a slot that it may write. -/
theorem reaches_overwritten (hcells : ∀ k, k < 16 → w.state.host.mem.target e.opts.pagesize
      (dataBase e w.state + targetOff e.target slot + k) = .file f (targetOff e.target slot + k))
    (hin : ∀ k, k < 16 → InBox w.state.box (dataBase e w.state + targetOff e.target slot + k))
    (hwrite : ∀ k, k < 16 → (w.state.host.mem.prot
      ((dataBase e w.state + targetOff e.target slot + k) / e.opts.pagesize)).write = true)
    (hcode : ∀ j, j < 16 → ∀ o,
      w.state.host.mem.cell e.opts.pagesize (entryAddr e w.state slot + j) ≠ .file f o)
    (henter : Enterable e w.state slot) (target trampoline : BitVec 64) :
    ∃ w', Reaches (EntryStep e address) BySandbox w w' ∧ Enterable e w'.state slot ∧
      branch e w'.state.host.mem (entryAddr e w'.state slot) = some (target, trampoline) := by
  have hlen : ∀ v : BitVec 64, (leBytes 8 v.toNat).length = 8 := fun v => length_leBytes 8 _
  let m := w.state.host.mem
  let b := dataBase e w.state + targetOff e.target slot
  have hfirst : m.writeBytes e.opts.pagesize b (leBytes 8 target.toNat) = { m with
      files := Function.update m.files f (patch (m.files f) (targetOff e.target slot)
        (leBytes 8 target.toNat)) } := by
    apply Memory.writeBytes_file
    intro k hk
    rw [hlen] at hk
    exact hcells k (by omega)
  have hsecond : (m.writeBytes e.opts.pagesize b (leBytes 8 target.toNat)).writeBytes
      e.opts.pagesize (b + 8) (leBytes 8 trampoline.toNat) = { m with
        files := Function.update m.files f
          (setWords (m.files f) e.target slot target trampoline) } := by
    rw [hfirst, Memory.writeBytes_file (f := f) (o := trampolineOff e.target slot)]
    · simp only [Function.update_self, Function.update_idem]
      rfl
    · intro k hk
      rw [hlen] at hk
      have hcell := hcells (8 + k) (by omega)
      rw [← Nat.add_assoc, ← Nat.add_assoc] at hcell
      exact hcell
  have hpages : ∀ p, (m.writeBytes e.opts.pagesize b (leBytes 8 target.toNat)).prot p = m.prot p :=
    fun p => Memory.prot_eq_of_pages (by rw [Memory.pages_writeBytes])
  have hrun := (reaches_stores address (w := w) (a := b) (leBytes 8 target.toNat)
    (fun k hk => hin k (by rw [hlen] at hk; omega))
    fun k hk => hwrite k (by rw [hlen] at hk; omega)).trans
      (reaches_stores address (a := b + 8) (leBytes 8 trampoline.toNat)
        (fun k hk => by
          rw [hlen] at hk
          have hnext := hin (8 + k) (by omega)
          rwa [← Nat.add_assoc] at hnext)
        fun k hk => by
          rw [hlen] at hk
          have hnext := hwrite (8 + k) (by omega)
          rw [← Nat.add_assoc] at hnext
          exact (congrArg Prot.write (hpages _)).trans hnext)
  refine ⟨_, hrun, ?_⟩
  simp only [m] at hsecond
  dsimp only
  rw [hsecond]
  have hcode' := Memory.readRange_files (G := setWords (m.files f) e.target slot target trampoline)
    fun k hk o hcell => absurd hcell (hcode k hk o)
  refine ⟨⟨henter.exec, hcode'.trans henter.code⟩, ?_⟩
  have hbranch := @branch_of_cells e { w.state with host.mem := { m with
    files := Function.update m.files f (setWords (m.files f) e.target slot target trampoline) } }
      f slot hcells (hcode'.trans henter.code)
  dsimp only at hbranch
  rwa [Function.update_self, entryWords_setWords, if_pos rfl] at hbranch

/-- On arm64 the sandbox can lead every entry that it can enter to any target, through any
trampoline: it makes the page of the table writable, and stores there. -/
theorem entry_redirected {w₀ : Watched} (hb : Begins e r w₀) (hv : e.opts.noVerify = false)
    (hblock : 32 ∣ e.opts.pagesize) (harm : e.target = arm64)
    (hrun : Reaches (EntryStep e address) (SparesTable e) w₀ w)
    (hentries : w.state.cbinfo.entries ≠ 0) (henter : Enterable e w.state slot)
    (target trampoline : BitVec 64) :
    ∃ w', Reaches (EntryStep e address) BySandbox w w' ∧ Enterable e w'.state slot ∧
      branch e w'.state.host.mem (entryAddr e w'.state slot) = some (target, trampoline) := by
  have hi := watchInv_of_reaches hb hv hblock (fun hne => absurd harm hne) hrun
  have hu := hi.usable
  obtain ⟨f, h⟩ : ∃ f, Tabled e r w f := by
    rcases hi.table with ⟨hblank, -⟩ | h
    · exact absurd hblank.entries hentries
    · exact h
  have hh : Honest e w f slot := (h.slots slot).resolve_right fun hlost => hlost.target harm
  have hps : 0 < e.opts.pagesize := hu.works.region.pagesize ▸ r.pagesize_pos
  have hacc := accepts_page hu.works (h.word_inBox hu slot (k := 0) (by omega))
  rw [Nat.add_zero] at hacc
  let op := Op.mprotect (slotPage e w.state slot * e.opts.pagesize) e.opts.pagesize
    (LFI_PROT_READ ||| LFI_PROT_WRITE)
  have hrw : has (LFI_PROT_READ ||| LFI_PROT_WRITE) LFI_PROT_EXEC = false := by decide
  have hmem : (w.sandbox e op []).state.host.mem = w.state.host.mem.mprotect e.opts.pagesize
      (slotPage e w.state slot * e.opts.pagesize) e.opts.pagesize
        (hostProt e.target (LFI_PROT_READ ||| LFI_PROT_WRITE)) :=
    host_boxMprotect (h := setOutcomes w.state.host []) hu.works hacc dvd_rfl hrw rfl
  have hstep : EntryStep e address w (.sandbox op []) (w.sandbox e op []) :=
    ⟨trivial, trivial, trivial, otherFile_of_none rfl, rfl⟩
  have hm := @moved_sandbox _ _ _ op hu hv trivial trivial (by simp [op]) []
  generalize w.sandbox e op [] = w₁ at hmem hstep hm
  have hspan : ∀ q, InSpan e.opts.pagesize (slotPage e w.state slot * e.opts.pagesize)
      e.opts.pagesize q ↔ q = slotPage e w.state slot := by
    intro q
    have hone := hu.works.region.inSpan_mul_iff (p := q) (slotPage e w.state slot) 1
    rw [Nat.one_mul, ← hu.works.region.pagesize] at hone
    rw [hone]
    omega
  have hsame : Memory.SameBytes w₁.state.host.mem w.state.host.mem := hmem ▸ .mprotect ..
  have hpage : ∀ k, k < 16 → (dataBase e w.state + targetOff e.target slot + k) / e.opts.pagesize =
      slotPage e w.state slot := fun k hk => h.word_page hu hblock slot hk
  have hmapped : (w.state.host.mem.pages (slotPage e w.state slot)).isSome := by
    have hfile := hh.cells 0 (by omega)
    by_contra hnone
    rw [Bool.not_eq_true, Option.isSome_eq_false_iff, Option.isNone_iff_eq_none] at hnone
    rw [Memory.target, hpage 0 (by omega), Memory.backing, hnone] at hfile
    cases hfile
  have hdata : dataBase e w.state = w.state.cbinfo.entries + MAXCALLBACKS * 16 := if_pos harm
  have hentry : entryAddr e w.state slot = w.state.cbinfo.entries + 16 * slot := by
    rw [entryAddr, entrySize, if_pos harm]
  -- the code is before the table
  have hbefore : ∀ j, j < 16 → entryAddr e w.state slot + j < dataBase e w.state := by
    intro j hj
    have hlt := entry_lt slot hj
    rw [hentry, hdata]
    omega
  have hapart : ∀ j, j < 16 →
      (entryAddr e w.state slot + j) / e.opts.pagesize ≠ slotPage e w.state slot := by
    intro j hj heq
    have hal : e.opts.pagesize ∣ dataBase e w.state := hu.works.region.pagesize ▸ h.accepts.1
    have hle : dataBase e w.state / e.opts.pagesize ≤ slotPage e w.state slot :=
      Nat.div_le_div_right (Nat.le_add_right ..)
    rw [← heq, Nat.le_div_iff_mul_le hps, Nat.div_mul_cancel hal] at hle
    exact absurd (hbefore j hj) (by omega)
  have hover : ∃ w', Reaches (EntryStep e address) BySandbox w₁ w' ∧ Enterable e w'.state slot ∧
      branch e w'.state.host.mem (entryAddr e w'.state slot) = some (target, trampoline) := by
    apply reaches_overwritten (f := f)
    · intro k hk
      rw [hm.dataBase_eq, hsame.target]
      exact hh.cells k hk
    · intro k hk
      rw [hm.dataBase_eq, hm.inBox_iff]
      exact h.word_inBox hu slot hk
    · intro k hk
      rw [hm.dataBase_eq, hpage k hk, hmem,
        Memory.prot_mprotect_of_mapped ((hspan _).mpr rfl) hmapped]
      rfl
    · intro j hj o hfile
      rw [hm.entryAddr_eq, hsame.cell] at hfile
      have hx := h.only _ o (h.inside slot j hj) hfile
      exact absurd (hbefore j hj) (by omega)
    · refine ⟨fun j hj => ?_, ?_⟩
      · rw [hm.entryAddr_eq, hmem, Memory.prot_mprotect_of_not fun hin =>
          hapart j hj ((hspan _).mp hin)]
        exact henter.exec j hj
      · rw [hm.entryAddr_eq, hmem, (Memory.SameBytes.mprotect ..).readRange]
        exact henter.code
  obtain ⟨w', hreach, hafter⟩ := hover
  exact ⟨w', ((Reaches.refl _).tail (l := Act.sandbox op []) trivial hstep).trans hreach, hafter⟩

end

/-! The first callback of a box. -/

/-- A box on which nothing has been registered. -/
def unwatched (s : Callbacks.State) : Watched := ⟨s, fun _ => (0, 0)⟩

theorem ready_first {e : Engine} {r : Region} {s : Callbacks.State} {a : Answers} {fn : BitVec 64}
    (hfresh : Fresh e r s) (ha : a.Sound e s.box) (hok : (initCb e s a).1 = true) (hfn : fn ≠ 0)
    (address : Trampoline → BitVec 64) (kind : Trampoline) :
    let s' := ((unwatched s).host e address (.register kind fn a)).state
    (∃ f, Ready e s' f) ∧ ∀ off, off < dataSize e.target →
      s'.box.mm.table ((dataBase e s' + off) / e.opts.pagesize) ≠ none := by
  intro s'
  obtain ⟨-, ⟨hfail, -⟩ | ⟨-, f, hserves⟩⟩ :=
    @initCb_idle e r address _ _ hfresh.usable hfresh.blank ha
  · rw [hok] at hfail
    cases hfail
  · have hne := hserves.consistent.ready.entries
    have hreg := @registerCb_init e address _ hfresh.blank.entries a fn kind fun _ => hne
    rw [if_pos hok, ← register_eq, ← register_eq] at hreg
    have hs' : s' = (register e address (initCb e s a).2 a fn kind).2 := congrArg Prod.snd hreg
    have hnext := hserves.next (c := .register kind fn a) (by rintro _ _ _ ⟨⟩; exact hfn)
    have htaken := ((setup_initCb hfresh.usable.works hfresh.usable.pos ha).made hok).taken
    rw [hs']
    refine ⟨⟨f, hnext.consistent.ready⟩, ?_⟩
    rw [register_eq]
    rcases @registerCb_cases e address _ hne a fn kind with
      ⟨_, -, heq⟩ | ⟨-, ⟨-, heq⟩ | ⟨_, -, heq⟩⟩ <;>
    · rw [heq]
      exact htaken

theorem Ready.enterable {e : Engine} {s : Callbacks.State} {f : Int} (h : Ready e s f) (slot : Slot) :
    Enterable e s slot := ⟨h.exec slot, h.code slot⟩

/-- An operation that takes free pages leaves the entries of an x64 box alone. -/
theorem Enterable.spared {e : Engine} {r : Region} {w : Watched} {op : Op} {slot : Slot}
    (henter : Enterable e w.state slot) (harm : e.target ≠ arm64) (hu : Usable e r w.state)
    (htaken : ∀ off, off < dataSize e.target →
      w.state.box.mm.table ((dataBase e w.state + off) / e.opts.pagesize) ≠ none)
    (hnot : ∀ p, ¬Names e.opts.pagesize op p) (hstore : ∀ a b, op ≠ .store a b)
    (outcomes : List Outcome) : Enterable e (w.sandbox e op outcomes).state slot := by
  have hsame : ∀ j, j < 16 → SamePage e.opts.pagesize
      ((entryAddr e w.state slot + j) / e.opts.pagesize) w.state.host.mem
        (w.sandbox e op outcomes).state.host.mem := by
    intro j hj
    have haddr : entryAddr e w.state slot + j = dataBase e w.state + (32 * slot + j) := by
      rw [entryAddr, entrySize, if_neg harm, dataBase, if_neg harm, Nat.add_assoc]
    have hoff : 32 * (slot : Nat) + j < dataSize e.target := by
      rw [dataSize, entrySize, if_neg harm]
      exact entry_lt slot (by omega)
    have hspares := @spares_apply e _ r ⟨w.state.box, setOutcomes w.state.host outcomes⟩
      hu.works op (htaken _ hoff) (hnot _) hstore
    rw [haddr]
    exact hspares.1
  refine ⟨fun j hj => ?_, ?_⟩
  · exact (congrArg Prot.exec (hsame j hj).prot_eq).trans (henter.exec j hj)
  · refine (Memory.readRange_congr fun a hlo hhi => ?_).trans henter.code
    obtain ⟨j, rfl⟩ := Nat.exists_eq_add_of_le hlo
    exact (hsame j (by omega)).bytes _ rfl

/-- The box, before anything is registered. -/
theorem begins_fresh {e : Engine} {r : Region} {s : Callbacks.State} (hfresh : Fresh e r s)
    (hpriv : ∀ p, s.host.mem.backing p = .priv) (hlazy : ∀ p, s.host.mem.lazy p = none) :
    Begins e r (unwatched s) := by
  refine ⟨hfresh.usable, hfresh.blank, fun x _ => ?_, fun _ => rfl⟩
  rw [Memory.cell, unwatched, hpriv, hlazy]

/-- The box after its first registration. -/
theorem reaches_first {e : Engine} {r : Region} {s : Callbacks.State} {a : Answers} {fn : BitVec 64}
    (hb : Begins e r (unwatched s)) (ha : a.Sound e s.box) (hfn : fn ≠ 0)
    (address : Trampoline → BitVec 64) (kind : Trampoline) :
    Reaches (EntryStep e address) (SparesTable e) (unwatched s)
      ((unwatched s).host e address (.register kind fn a)) := by
  refine (Reaches.refl _).tail (l := Act.host (.register kind fn a)) trivial
    ⟨⟨hfn, ha⟩, fun _ fd _ x hx o heq => ?_, rfl⟩
  rw [hb.own x hx] at heq
  cases heq

theorem rejects_nopEngine : RejectsEntries nopEngine := by
  intro base bytes k haccept _ heq
  have hmem : (0x4c : UInt8) ∈ (bytes.drop k).take 16 := heq ▸ by decide
  have hnop := List.all_eq_true.mp haccept _ (List.mem_of_mem_drop (List.mem_of_mem_take hmem))
  exact absurd hnop (by decide)

/-- The sandbox maps a page of memory. -/
def mapsPage : Op := .mapany 4096 (LFI_PROT_READ ||| LFI_PROT_WRITE) MAP_FLAGS (-1) 0

theorem entryStep_mapsPage {e : Engine} (address : Trampoline → BitVec 64) (w : Watched) :
    EntryStep e address w (.sandbox mapsPage []) (w.sandbox e mapsPage []) :=
  ⟨show has MAP_FLAGS LFI_MAP_SHARED = false by decide,
    fun hexec => absurd hexec (by decide), trivial, otherFile_of_none rfl, rfl⟩

/-- An x64 box, after its first registration. -/
theorem watched_first : ∃ r w,
    w = (unwatched freshState).host nopEngine twoTrampolines (.register .lfiCallback 1 willingHost) ∧
      Begins nopEngine r (unwatched freshState) ∧ Usable nopEngine r w.state ∧
        Reaches (EntryStep nopEngine twoTrampolines) (SparesTable nopEngine)
          (unwatched freshState) w ∧
          (∃ f, Ready nopEngine w.state f) ∧ ∀ off, off < dataSize nopEngine.target →
            w.state.box.mm.table ((dataBase nopEngine w.state + off) / nopEngine.opts.pagesize) ≠
              none := by
  obtain ⟨r, hfresh⟩ := fresh_freshState
  have hb := begins_fresh hfresh (fun _ => rfl) fun _ => rfl
  obtain ⟨hready, htaken⟩ := ready_first hfresh sound_willingHost initCb_freshState
    (by decide : (1 : BitVec 64) ≠ 0) twoTrampolines .lfiCallback
  have hrun := reaches_first hb sound_willingHost (by decide : (1 : BitVec 64) ≠ 0)
    twoTrampolines .lfiCallback
  have hblock : 32 ∣ nopEngine.opts.pagesize := by decide
  have hi := watchInv_of_reaches hb rfl hblock (fun _ => rejects_nopEngine) hrun
  exact ⟨r, _, rfl, hb, hi.usable, hrun, hready, htaken⟩

/-- The entries of an x64 box, after its first registration and a mapping of the sandbox. -/
theorem honest_after_first : ∃ w : Watched,
    w = ((unwatched freshState).host nopEngine twoTrampolines
      (.register .lfiCallback 1 willingHost)).sandbox nopEngine mapsPage [] ∧
      ∀ slot, branch nopEngine w.state.host.mem (entryAddr nopEngine w.state slot) =
        some (w.last slot) := by
  obtain ⟨r, w, heq, hb, hu, hrun, ⟨f, hready⟩, htaken⟩ := watched_first
  have hx64 : nopEngine.target ≠ arm64 := by decide
  have hspares : SparesTable nopEngine w (.sandbox mapsPage []) := fun harm => absurd harm hx64
  rw [← heq]
  refine ⟨_, rfl, fun slot => entries_honest hb rfl (by decide) (fun _ => rejects_nopEngine)
    (hrun.tail hspares (entryStep_mapsPage twoTrampolines w)) hready.entries ?_⟩
  exact (hready.enterable slot).spared hx64 hu htaken (fun _ => id) (by simp [mapsPage]) []

theorem fresh_armState : ∃ r, Fresh armEngine r armState := by
  have hplaced : Placed armEngine (gb 4) :=
    ⟨by decide, by decide, by decide, by decide, by decide, by decide⟩
  obtain ⟨r, hregion, himpl, -⟩ := boxRegion_new hplaced lfiBoxNew_armEngine
  exact ⟨r, ⟨⟨hregion, himpl⟩, by decide⟩, rfl, fun _ => rfl⟩

theorem sound_armState : willingHost.Sound armEngine armState.box := by
  intro start hstart
  obtain rfl : gb 16 = start := Option.some.inj hstart
  refine ⟨by decide, fun a hin hbox => ?_⟩
  have hlo : gb 16 / 4096 ≤ a / 4096 := hin.1
  have hhi : a < gb 8 - kb 192 := hbox.2
  simp only [gb, kb] at hlo hhi
  omega

theorem initCb_armState : (initCb armEngine armState willingHost).1 = true := by
  decide +kernel

/-- The first callback of an arm64 box is led to function 2, through the address 3. -/
theorem redirected_after_first : ∃ w w' : Watched,
    w = (unwatched armState).host armEngine twoTrampolines (.register .lfiCallback 1 willingHost) ∧
      Reaches (EntryStep armEngine twoTrampolines) BySandbox w w' ∧
        Enterable armEngine w'.state 0 ∧
          branch armEngine w'.state.host.mem (entryAddr armEngine w'.state 0) = some (2, 3) := by
  obtain ⟨r, hfresh⟩ := fresh_armState
  have hb := begins_fresh hfresh (fun _ => rfl) fun _ => rfl
  obtain ⟨⟨f, hready⟩, -⟩ := ready_first hfresh sound_armState initCb_armState
    (by decide : (1 : BitVec 64) ≠ 0) twoTrampolines .lfiCallback
  obtain ⟨w', hredirected⟩ := entry_redirected hb rfl (by decide) rfl
    (reaches_first hb sound_armState (by decide) twoTrampolines .lfiCallback) hready.entries
      (hready.enterable 0) 2 3
  exact ⟨_, w', rfl, hredirected⟩

end LfiRuntime.Callbacks
