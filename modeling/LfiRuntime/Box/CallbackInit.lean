import LfiRuntime.Box.CallbackEntries
import LfiRuntime.Box.MapSpec

/-!
`init_cb`: where it succeeds the callback entries are in place, over a file of zeroes;
where it fails the box has none, as before.
-/

namespace LfiRuntime.Callbacks

open LfiRuntime.Box
open LfiRuntime.Config
open LfiRuntime.HostCalls
open LfiRuntime.Mmap
open LfiRuntime.PagedMemory

/-- `mmap` at an address of its own choice: whole pages, none of them of the box. -/
structure Elsewhere (e : Engine) (box : LFIBox) (start len : Nat) : Prop where
  aligned : e.opts.pagesize ∣ start
  outside : ∀ a, InSpan e.opts.pagesize start len (a / e.opts.pagesize) →
    ¬(box.min ≤ a ∧ a < box.max)

/-- The host does not place the alias table in the box. -/
def Answers.Sound (e : Engine) (box : LFIBox) (a : Answers) : Prop :=
  ∀ start, a.aliasmap = some start → Elsewhere e box start (dataSize e.target)

/-- What `init_cb` leaves behind. -/
structure Initialised (e : Engine) (r : Region) (s : State) (a : Answers) (u : Bool × State) :
    Prop where
  callbacks : u.2.callbacks = s.callbacks
  box_eq : ∃ mm, u.2.box = { s.box with mm := mm }
  works : Works e r u.2.box
  ready : u.1 = true → ∃ f, Ready e u.2 f ∧
    ∀ slot, entryWords e.target (u.2.host.mem.files f) slot = (0, 0)
  entries : u.1 = false → u.2.cbinfo.entries = s.cbinfo.entries
  table : u.1 = false → (e.target = arm64 → outcome (setOutcomes s.host a.undo) 0 = true) →
    u.2.box.mm.table = s.box.mm.table

variable {e : Engine} {r : Region} {s : State} {a : Answers} {box box' box'' : LFIBox}
  {h h' h'' : Host} {m : Memory} {f : Int} {ps addr size : Nat}

theorem Initialised.of_failed {s' : State} (hcallbacks : s'.callbacks = s.callbacks)
    (hbox : ∃ mm, s'.box = { s.box with mm := mm }) (hw : Works e r s'.box)
    (hentries : s'.cbinfo.entries = s.cbinfo.entries)
    (htable : (e.target = arm64 → outcome (setOutcomes s.host a.undo) 0 = true) →
      s'.box.mm.table = s.box.mm.table) : Initialised e r s a (false, s') :=
  ⟨hcallbacks, hbox, hw, fun h => absurd h (by simp), fun _ => hentries, fun _ => htable⟩

theorem Initialised.of_ready {s' : State} (hcallbacks : s'.callbacks = s.callbacks)
    (hbox : ∃ mm, s'.box = { s.box with mm := mm }) (hw : Works e r s'.box)
    (hready : ∃ f, Ready e s' f ∧ ∀ slot, entryWords e.target (s'.host.mem.files f) slot = (0, 0)) :
    Initialised e r s a (true, s') :=
  ⟨hcallbacks, hbox, hw, fun _ => hready, fun h => absurd h (by simp), fun h => absurd h (by simp)⟩

/-! The copies of the entry code. -/

/-- Where the entries of a table of the given entry size are. -/
def places (base size : Nat) : List Nat :=
  (List.finRange MAXCALLBACKS).map fun i : Slot => base + size * (i : Nat)

theorem mem_places {base size o : Nat} :
    o ∈ places base size ↔ ∃ slot : Slot, o = base + size * slot := by
  rw [places, List.mem_map]
  constructor
  · rintro ⟨slot, -, rfl⟩
    exact ⟨slot, rfl⟩
  · rintro ⟨slot, rfl⟩
    exact ⟨slot, List.mem_finRange slot, rfl⟩

theorem fillCode_eq_foldl (ps : Nat) (m : Memory) (base size : Nat) (code : List UInt8) :
    fillCode ps m base size code =
      (places base size).foldl (fun m o => m.writeBytes ps o code) m := by
  unfold fillCode places
  generalize List.finRange MAXCALLBACKS = l
  rw [List.foldl_map]

theorem fillCode_eq_foldl_offsets (ps : Nat) (m : Memory) (base size : Nat) (code : List UInt8) :
    fillCode ps m base size code =
      (places 0 size).foldl (fun m o => m.writeBytes ps (base + o) code) m := by
  unfold fillCode places
  generalize List.finRange MAXCALLBACKS = l
  rw [List.foldl_map]
  simp only [Nat.zero_add]

theorem places_apart {base size n o o' : Nat} (hn : n ≤ size) (ho : o ∈ places base size)
    (ho' : o' ∈ places base size) (hne : o ≠ o') : o + n ≤ o' ∨ o' + n ≤ o := by
  obtain ⟨i, rfl⟩ := mem_places.mp ho
  obtain ⟨j, rfl⟩ := mem_places.mp ho'
  rcases Nat.lt_trichotomy i j with hlt | heq | hlt
  · have hmul := Nat.mul_le_mul_left size (Nat.succ_le_of_lt hlt)
    rw [Nat.mul_succ] at hmul
    omega
  · exact absurd (by rw [heq]) hne
  · have hmul := Nat.mul_le_mul_left size (Nat.succ_le_of_lt hlt)
    rw [Nat.mul_succ] at hmul
    omega

theorem pages_fillCode (ps : Nat) (m : Memory) (base size : Nat) (code : List UInt8) :
    (fillCode ps m base size code).pages = m.pages :=
  Memory.pages_foldl_writeBytes _ _

theorem target_fillCode (base size : Nat) (code : List UInt8) (x : Nat) :
    (fillCode ps m base size code).target ps x = m.target ps x := by
  apply Memory.target_congr
  rw [Memory.backing, Memory.backing, pages_fillCode]

theorem cell_fillCode_own {base size : Nat} {code : List UInt8} {x : Nat}
    (hcell : m.cell ps x = .own x) : (fillCode ps m base size code).cell ps x = .own x := by
  rw [fillCode_eq_foldl]
  generalize places base size = l
  induction l generalizing m with
  | nil => exact hcell
  | cons o l ih => exact ih (Memory.cell_writeBytes_own code hcell)

theorem entry_lt {size k : Nat} (slot : Slot) (hk : k < size) :
    size * slot + k < MAXCALLBACKS * size := by
  have hmul := Nat.mul_le_mul_left size (Nat.succ_le_of_lt slot.isLt)
  rw [Nat.mul_succ, Nat.mul_comm size MAXCALLBACKS] at hmul
  omega

/-- The entry code, written through an alias of the file. -/
theorem fillCode_file {base size : Nat} {code : List UInt8} (hcode : code.length ≤ size)
    (htarget : ∀ off, off < MAXCALLBACKS * size → m.target ps (base + off) = .file f off) :
    fillCode ps m base size code =
      { m with
        files := Function.update m.files f (patchAll (m.files f) (places 0 size) code) } := by
  rw [fillCode_eq_foldl_offsets]
  apply Memory.foldl_writeBytes_file
  intro o ho k hk
  obtain ⟨slot, rfl⟩ := mem_places.mp ho
  rw [Nat.zero_add, Nat.add_assoc]
  exact htarget _ (entry_lt slot (by omega))

/-- The entry code in pages of their own. -/
theorem readRange_fillCode_own {base size : Nat} {code : List UInt8} (hcode : code.length ≤ size)
    (hcell : ∀ off, off < MAXCALLBACKS * size → m.cell ps (base + off) = .own (base + off))
    (slot : Slot) :
    (fillCode ps m base size code).readRange ps (base + size * slot) code.length = code := by
  have hin : ∀ (j : Slot) k, k < code.length →
      m.cell ps (base + size * j + k) = .own (base + size * j + k) := by
    intro j k hk
    rw [Nat.add_assoc]
    exact hcell _ (entry_lt j (by omega))
  rw [Memory.readRange_own fun k hk => cell_fillCode_own (hin slot k hk)]
  have hfill := @Memory.foldl_writeBytes_own ps m code (places base size) (by
    intro i hi k hk
    obtain ⟨j, rfl⟩ := mem_places.mp hi
    exact hin j k hk)
  rw [fillCode_eq_foldl, hfill]
  dsimp only
  have hmem : base + size * (slot : Nat) ∈ places base size := mem_places.mpr ⟨slot, rfl⟩
  exact bytesAt_patchAll _ (fun o ho o' ho' hne => places_apart hcode ho ho' hne) hmem

theorem wordAt_eq_zero {F : Nat → UInt8} {o : Nat} (hzero : ∀ k, k < 8 → F (o + k) = 0) :
    wordAt F o = 0 := by
  have hbytes : bytesAt F o 8 = List.replicate 8 0 := by
    rw [@bytesAt_congr (fun _ => 0) F o 8 hzero, bytesAt, List.map_const', List.length_range]
  have hzeroes : ofBytes (List.replicate 8 0) = 0 := by decide
  rw [wordAt, hbytes, hzeroes, BitVec.ofNat_eq_ofNat]

theorem hostSource_shared {src : Source} (hsrc : hostSource ps LFI_MAP_SHARED f 0 = some src) :
    src = .sharedFile f 0 := by
  have hanon : has LFI_MAP_SHARED LFI_MAP_ANONYMOUS = false := by decide
  have hshared : has LFI_MAP_SHARED LFI_MAP_SHARED = true := by decide
  simp only [hostSource, hanon, hshared, Bool.not_true, Bool.false_and, Bool.false_eq_true,
    if_false, if_true] at hsrc
  split at hsrc
  · cases hsrc
  · exact (Option.some.inj hsrc).symm

/-! x64: one mapping of the file. -/

theorem Elsewhere.of_accepts {start len : Nat} (he : Elsewhere e box start len)
    (hw : Works e r box) (hacc : r.Accepts addr size) {x : Nat} (hlo : start ≤ x)
    (hhi : x < start + len) : ¬InSpan e.opts.pagesize addr size (x / e.opts.pagesize) := by
  intro hin
  have hps : 0 < e.opts.pagesize := hin.pos
  refine he.outside x (inSpan_of_mem hps hlo hhi) ?_
  exact (hw.region.contains_div_iff x).mp (hw.region.contains_of_inSpan hacc hin)

theorem entry_addr_ne_zero (hw : Works e r box) (hmin : 0 < box.min) (hacc : r.Accepts addr size) :
    addr ≠ 0 := by
  rintro rfl
  have hbase : r.base = 0 := by simpa using hacc.2.2.1
  rw [hw.region.lo, hbase, Nat.zero_mul] at hmin
  exact Nat.lt_irrefl 0 hmin

/-- The table behind a word of the file that the entry code does not reach. -/
theorem entryWords_eq_zero {F : Nat → UInt8} (t : Target) (slot : Slot)
    (hzero : ∀ k, k < 16 → F (targetOff t slot + k) = 0) : entryWords t F slot = (0, 0) := by
  have htarget := @wordAt_eq_zero F (targetOff t slot) fun k hk => hzero k (by omega)
  have htrampoline := @wordAt_eq_zero F (trampolineOff t slot) fun k hk => by
    rw [trampolineOff, Nat.add_assoc]
    exact hzero (8 + k) (by omega)
  rw [entryWords, htarget, htrampoline]

/-- The file shows through the alias and in the box, where it may be run and not written to,
and has the entry code in it. -/
theorem mapped_x64 {aliasmap : Nat} {fd : Int} (hw : Works e r box)
    (hels : Elsewhere e box aliasmap (MAXCALLBACKS * 32))
    (hmem : h.mem = fillCode e.opts.pagesize ((newFile m fd).mmapFixed e.opts.pagesize aliasmap
      (MAXCALLBACKS * 32) Prot.readWrite (.sharedFile fd 0)) aliasmap 32 cbentryCode)
    (hacc : r.Accepts addr (MAXCALLBACKS * 32))
    (hok : (mapverify e h addr (MAXCALLBACKS * 32) (LFI_PROT_READ ||| LFI_PROT_EXEC) LFI_MAP_SHARED
      fd 0 true).1 = true) :
    let m' := (mapverify e h addr (MAXCALLBACKS * 32) (LFI_PROT_READ ||| LFI_PROT_EXEC)
      LFI_MAP_SHARED fd 0 true).2.mem
    (∀ off, off < MAXCALLBACKS * 32 →
        m'.target e.opts.pagesize (aliasmap + off) = .file fd off ∧
          m'.target e.opts.pagesize (addr + off) = .file fd off ∧
          m'.prot ((addr + off) / e.opts.pagesize) =
            hostProt e.target (LFI_PROT_READ ||| LFI_PROT_EXEC)) ∧
      m'.files fd = patchAll (fun _ => 0) (places 0 32) cbentryCode := by
  intro m'
  have hps : 0 < e.opts.pagesize := hw.region.pagesize ▸ r.pagesize_pos
  have hal : e.opts.pagesize ∣ addr := hw.region.pagesize ▸ hacc.1
  have halias : ∀ off, off < MAXCALLBACKS * 32 → ((newFile m fd).mmapFixed e.opts.pagesize aliasmap
      (MAXCALLBACKS * 32) Prot.readWrite (.sharedFile fd 0)).target e.opts.pagesize
        (aliasmap + off) = .file fd off :=
    fun off hoff => Memory.target_mmapFixed_shared hps hels.aligned hoff
  have hentry : cbentryCode.length ≤ 32 := by decide
  have hfill := fillCode_file hentry halias
  obtain ⟨src, hsrc⟩ := exists_source_of_mapverify hok
  obtain ⟨pr, hsame⟩ := sameBytes_mapverify hsrc hok
  rw [hostSource_shared hsrc] at hsame
  refine ⟨fun off hoff => ⟨?_, ?_, ?_⟩, ?_⟩
  · rw [hsame.target, Memory.target_mmapFixed_of_not (hels.of_accepts hw hacc (by omega) (by omega)),
      hmem, target_fillCode]
    exact halias off hoff
  · rw [hsame.target, Memory.target_mmapFixed_shared hps hal hoff]
  · exact (given_mapverify hok _ (inSpan_of_mem hps (by omega) (by omega))).2
  · rw [hsame.files]
    change h.mem.files fd = _
    rw [hmem, hfill]
    simp only [Memory.mmapFixed, newFile, Function.update_self]

theorem ready_x64 {aliasmap d : Nat} {fd : Int} {cbs : Slot → BitVec 64} (hw : Works e r box)
    (hmin : 0 < box.min) (harm : e.target ≠ arm64)
    (hels : Elsewhere e box aliasmap (dataSize e.target))
    (hmem : h.mem = fillCode e.opts.pagesize ((newFile m fd).mmapFixed e.opts.pagesize aliasmap
      (MAXCALLBACKS * 32) Prot.readWrite (.sharedFile fd 0)) aliasmap 32 cbentryCode)
    (hacc : r.Accepts addr (MAXCALLBACKS * 32))
    (hok : (mapverify e h addr (MAXCALLBACKS * 32) (LFI_PROT_READ ||| LFI_PROT_EXEC) LFI_MAP_SHARED
      fd 0 true).1 = true) :
    let h' := (mapverify e h addr (MAXCALLBACKS * 32) (LFI_PROT_READ ||| LFI_PROT_EXEC)
      LFI_MAP_SHARED fd 0 true).2
    Ready e ⟨box', h', ⟨aliasmap, addr, d⟩, cbs⟩ fd ∧
      ∀ slot, entryWords e.target (h'.mem.files fd) slot = (0, 0) := by
  intro h'
  have hdata : dataSize e.target = MAXCALLBACKS * 32 := by
    rw [dataSize, entrySize, if_neg harm]
  rw [hdata] at hels
  obtain ⟨hshows, hfiles⟩ := mapped_x64 hw hels hmem hacc hok
  have hcell := fun off hoff => Memory.cell_eq_target (hshows off hoff).2.1
  have hentry : ∀ slot : Slot, ∀ j, j < 16 →
      entryAddr e ⟨box', h', ⟨aliasmap, addr, d⟩, cbs⟩ slot + j = addr + (32 * slot + j) := by
    intro slot j _
    simp only [entryAddr, entrySize, if_neg harm]
    omega
  have hoff : ∀ slot : Slot, targetOff e.target slot = 32 * slot + 16 := fun slot => if_neg harm
  refine ⟨⟨entry_addr_ne_zero hw hmin hacc, ?_, ?_, ?_, ?_, ?_, ?_⟩, ?_⟩
  · intro off hoff
    rw [hdata] at hoff
    exact (hshows off hoff).1
  · intro off hoff
    rw [hdata] at hoff
    rw [dataBase, if_neg harm]
    exact (hshows off hoff).2.1
  · intro slot
    rw [entryCode, if_neg harm]
    have hread := @Memory.readRange_file e.opts.pagesize h'.mem fd
      (entryAddr e ⟨box', h', ⟨aliasmap, addr, d⟩, cbs⟩ slot) (32 * slot) 16 (by
        intro k hk
        rw [hentry slot k hk]
        exact hcell _ (entry_lt slot (by omega)))
    refine hread.trans ?_
    rw [hfiles]
    exact bytesAt_patchAll (places 0 32)
      (fun o ho o' ho' hne => places_apart (by decide) ho ho' hne)
      (mem_places.mpr ⟨slot, (Nat.zero_add _).symm⟩)
  · intro slot j hj slot' k hk heq
    rw [hentry slot j hj] at heq
    have heq' := (hcell _ (entry_lt slot (by omega))).symm.trans heq
    rw [hoff] at heq'
    have hoffs := (Cell.file.inj heq').2
    omega
  · intro slot j hj
    dsimp only
    rw [hentry slot j hj, (hshows _ (entry_lt slot (by omega))).2.2]
    rfl
  · intro off hoff
    rw [hdata] at hoff
    rw [dataBase, if_neg harm]
    dsimp only
    rw [(hshows off hoff).2.2]
    rfl
  · intro slot
    apply entryWords_eq_zero
    intro k hk
    rw [hfiles, hoff]
    apply patchAll_of_not
    intro o ho
    obtain ⟨i, rfl⟩ := mem_places.mp ho
    have hlen : cbentryCode.length = 16 := rfl
    omega

theorem initCbX64_spec (hw : Works e r s.box) (hmin : 0 < s.box.min) (ha : a.Sound e s.box)
    (harm : e.target ≠ arm64) : Initialised e r s a (initCbX64 e s a) := by
  have hkept : ∀ h : Host, Initialised e r s a (false, { s with host := h }) := fun h =>
    .of_failed rfl ⟨s.box.mm, rfl⟩ hw rfl fun _ => rfl
  simp only [initCbX64]
  cases a.memfd with
  | none => exact hkept s.host
  | some fd =>
    dsimp only
    split
    · exact hkept _
    cases halias : a.aliasmap with
    | none => exact hkept _
    | some aliasmap =>
      dsimp only
      generalize hh : setOutcomes _ a.entries = h
      have hmem : h.mem = fillCode e.opts.pagesize ((newFile s.host.mem fd).mmapFixed
          e.opts.pagesize aliasmap (MAXCALLBACKS * 32) Prot.readWrite (.sharedFile fd 0)) aliasmap
            32 cbentryCode := by
        rw [← hh, setOutcomes]
      have hany := mapany_cases hw h (MAXCALLBACKS * 32) (LFI_PROT_READ ||| LFI_PROT_EXEC)
        LFI_MAP_SHARED fd 0 true
      generalize boxMapanyLocked e s.box h _ _ _ _ _ _ = u at hany ⊢
      obtain ⟨res, box', h'⟩ := u
      rcases hany with ⟨addr, heq, hacc, -, hset, hver, hhost⟩ | ⟨hnone, hbox, hworks, htable, -⟩
      · dsimp only at heq hset hhost
        subst heq hhost
        dsimp only
        exact .of_ready rfl hset.box_eq hset.works
          ⟨fd, ready_x64 hw hmin harm (ha aliasmap halias) hmem hacc hver⟩
      · dsimp only at hnone hbox hworks htable
        subst hnone
        dsimp only
        exact .of_failed rfl hbox hworks rfl fun _ => htable

/-! arm64: the code in pages of its own, the file behind it. -/

/-- The code is in place, and the alias shows a file of zeroes. -/
structure CodeHalf (ps : Nat) (m : Memory) (aliasmap codemap : Nat) (fd : Int) : Prop where
  aliasCell : ∀ off, off < MAXCALLBACKS * 16 → m.target ps (aliasmap + off) = .file fd off
  own : ∀ off, off < MAXCALLBACKS * 16 → m.cell ps (codemap + off) = .own (codemap + off)
  code : ∀ slot : Slot, m.readRange ps (codemap + 16 * slot) 16 = cbtrampoline
  file : m.files fd = fun _ => 0

namespace CodeHalf

variable {m' : Memory} {aliasmap codemap : Nat} {fd : Int}

theorem sameBytes (hc : CodeHalf ps m aliasmap codemap fd) (hs : Memory.SameBytes m' m) :
    CodeHalf ps m' aliasmap codemap fd :=
  ⟨fun off hoff => (hs.target _).trans (hc.aliasCell off hoff),
    fun off hoff => (hs.cell _).trans (hc.own off hoff),
    fun slot => (hs.readRange _ _).trans (hc.code slot), (congrFun hs.files fd).trans hc.file⟩

/-- What happens elsewhere does not matter. -/
theorem within {start len : Nat} (hc : CodeHalf ps h.mem aliasmap codemap fd)
    (hw : Within ps start len h h') (hfiles : h'.mem.files = h.mem.files)
    (halias : ∀ off, off < MAXCALLBACKS * 16 → ¬InSpan ps start len ((aliasmap + off) / ps))
    (hcode : ∀ off, off < MAXCALLBACKS * 16 → ¬InSpan ps start len ((codemap + off) / ps)) :
    CodeHalf ps h'.mem aliasmap codemap fd := by
  refine ⟨fun off hoff => (hw.target (halias off hoff)).trans (hc.aliasCell off hoff),
    fun off hoff => (hw.cell (hcode off hoff)).trans (hc.own off hoff), fun slot => ?_,
    (congrFun hfiles fd).trans hc.file⟩
  refine (Memory.readRange_congr fun x hlo hhi => hw.bytes x ?_).trans (hc.code slot)
  have hin := hcode (16 * slot + (x - (codemap + 16 * slot))) (entry_lt slot (by omega))
  rwa [show codemap + (16 * (slot : Nat) + (x - (codemap + 16 * slot))) = x by omega] at hin

/-- The code after it has been written to new pages. -/
theorem of_fill (hw : Works e r box) (hels : Elsewhere e box aliasmap (MAXCALLBACKS * 16))
    (hmem : h.mem = (newFile m fd).mmapFixed e.opts.pagesize aliasmap (MAXCALLBACKS * 16)
      Prot.readWrite (.sharedFile fd 0))
    (hacc : r.Accepts codemap (2 * MAXCALLBACKS * 16)) {prot : BitVec 32}
    (hok : (mapverify e h codemap (2 * MAXCALLBACKS * 16) prot (LFI_MAP_ANONYMOUS ||| LFI_MAP_PRIVATE)
      (-1) 0 false).1 = true) :
    CodeHalf e.opts.pagesize (fillCode e.opts.pagesize (mapverify e h codemap (2 * MAXCALLBACKS * 16)
      prot (LFI_MAP_ANONYMOUS ||| LFI_MAP_PRIVATE) (-1) 0 false).2.mem codemap 16 cbtrampoline)
        aliasmap codemap fd := by
  have hps : 0 < e.opts.pagesize := hw.region.pagesize ▸ r.pagesize_pos
  have hsrc : hostSource e.opts.pagesize (LFI_MAP_ANONYMOUS ||| LFI_MAP_PRIVATE) (-1) 0 =
      some .anon := rfl
  obtain ⟨pr, hsame⟩ := sameBytes_mapverify hsrc hok
  generalize (mapverify e h codemap (2 * MAXCALLBACKS * 16) prot _ (-1) 0 false).2.mem = m' at *
  have hown : ∀ off, off < MAXCALLBACKS * 16 →
      m'.cell e.opts.pagesize (codemap + off) = .own (codemap + off) := by
    intro off hoff
    rw [hsame.cell, Memory.cell_mmapFixed_anon (inSpan_of_mem hps (by omega) (by omega))]
  have hentry : cbtrampoline.length ≤ 16 := by decide
  have hfill := readRange_fillCode_own hentry hown
  have hpriv := @Memory.foldl_writeBytes_own e.opts.pagesize m' cbtrampoline (places codemap 16) (by
    intro o ho k hk
    obtain ⟨slot, rfl⟩ := mem_places.mp ho
    rw [Nat.add_assoc]
    exact hown _ (entry_lt slot hk))
  refine ⟨fun off hoff => ?_, fun off hoff => ?_, fun slot => hfill slot, ?_⟩
  · rw [target_fillCode, hsame.target,
      Memory.target_mmapFixed_of_not (hels.of_accepts hw hacc (by omega) (by omega)), hmem,
      Memory.target_mmapFixed_shared hps hels.aligned hoff]
  · exact cell_fillCode_own (hown off hoff)
  · rw [fillCode_eq_foldl, hpriv, hsame.files]
    change h.mem.files fd = _
    rw [hmem]
    exact Function.update_self ..

end CodeHalf

theorem ready_arm64 {aliasmap codemap : Nat} {fd : Int} {cbs : Slot → BitVec 64}
    (hw : Works e r box) (hmin : 0 < box.min) (harm : e.target = arm64)
    (hacc : r.Accepts codemap (2 * MAXCALLBACKS * 16))
    (hcode : CodeHalf e.opts.pagesize h.mem aliasmap codemap fd)
    (hdata : ∀ off, off < MAXCALLBACKS * 16 →
      h.mem.target e.opts.pagesize (codemap + MAXCALLBACKS * 16 + off) = .file fd off)
    (hexec : ∀ off, off < MAXCALLBACKS * 16 →
      (h.mem.prot ((codemap + off) / e.opts.pagesize)).exec = true)
    (hread : ∀ off, off < MAXCALLBACKS * 16 →
      (h.mem.prot ((codemap + MAXCALLBACKS * 16 + off) / e.opts.pagesize)).read = true) (d : Nat) :
    Ready e ⟨box', h, ⟨aliasmap, codemap, d⟩, cbs⟩ fd ∧
      ∀ slot, entryWords e.target (h.mem.files fd) slot = (0, 0) := by
  have hsize : dataSize e.target = MAXCALLBACKS * 16 := by
    rw [dataSize, entrySize, if_pos harm]
  have hentry : ∀ slot : Slot, entryAddr e ⟨box', h, ⟨aliasmap, codemap, d⟩, cbs⟩ slot =
      codemap + 16 * slot := by
    intro slot
    rw [entryAddr, entrySize, if_pos harm]
  refine ⟨⟨entry_addr_ne_zero hw hmin hacc, ?_, ?_, ?_, ?_, ?_, ?_⟩, ?_⟩
  · rw [hsize]
    exact hcode.aliasCell
  · rw [hsize, dataBase, if_pos harm]
    exact hdata
  · intro slot
    rw [entryCode, if_pos harm, hentry]
    exact hcode.code slot
  · intro slot j hj slot' k hk heq
    rw [hentry, Nat.add_assoc] at heq
    have hown := (hcode.own _ (entry_lt slot hj)).symm.trans heq
    cases hown
  · intro slot j hj
    rw [hentry, Nat.add_assoc]
    exact hexec _ (entry_lt slot hj)
  · rw [hsize, dataBase, if_pos harm]
    exact hread
  · intro slot
    apply entryWords_eq_zero
    intro k _
    rw [hcode.file]

theorem not_inSpan_of_lt {start len x : Nat} (hal : ps ∣ start) (hlt : x < start) :
    ¬InSpan ps start len (x / ps) := by
  intro hin
  have hmul := Nat.mul_le_mul_right ps hin.1
  rw [Nat.div_mul_cancel hal] at hmul
  have hle := Nat.div_mul_le_self x ps
  omega

/-- The entries once the file has been mapped over the second half. -/
theorem ready_mapped {h₁ h₃ h₄ h₅ : Host} {aliasmap codemap : Nat} {fd : Int}
    {cbs : Slot → BitVec 64} (hw : Works e r box) (hmin : 0 < box.min) (harm : e.target = arm64)
    (hels : Elsewhere e box aliasmap (MAXCALLBACKS * 16))
    (hacc : r.Accepts codemap (2 * MAXCALLBACKS * 16))
    (hacc' : r.Accepts (codemap + MAXCALLBACKS * 16) (MAXCALLBACKS * 16))
    (hcode : CodeHalf e.opts.pagesize h₁.mem aliasmap codemap fd)
    (hprotect : (protectverify e h₁ codemap (MAXCALLBACKS * 16) (LFI_PROT_READ ||| LFI_PROT_EXEC)
      true).1 = true)
    (hmapped : ∀ off, off < MAXCALLBACKS * 16 →
      (h₁.mem.pages ((codemap + off) / e.opts.pagesize)).isSome)
    (hmem : h₃.mem = (protectverify e h₁ codemap (MAXCALLBACKS * 16)
      (LFI_PROT_READ ||| LFI_PROT_EXEC) true).2.mem)
    (hwithin : Within e.opts.pagesize (codemap + MAXCALLBACKS * 16) (MAXCALLBACKS * 16) h₃ h₅)
    (hfiles : h₅.mem.files = h₃.mem.files)
    (hok : (mapverify e h₄ (codemap + MAXCALLBACKS * 16) (MAXCALLBACKS * 16) LFI_PROT_READ
      LFI_MAP_SHARED fd 0 false).1 = true)
    (hhost : h₅ = (mapverify e h₄ (codemap + MAXCALLBACKS * 16) (MAXCALLBACKS * 16) LFI_PROT_READ
      LFI_MAP_SHARED fd 0 false).2) (d : Nat) :
    Ready e ⟨box', h₅, ⟨aliasmap, codemap, d⟩, cbs⟩ fd ∧
      ∀ slot, entryWords e.target (h₅.mem.files fd) slot = (0, 0) := by
  have hps : 0 < e.opts.pagesize := hw.region.pagesize ▸ r.pagesize_pos
  have hal : e.opts.pagesize ∣ codemap + MAXCALLBACKS * 16 := hw.region.pagesize ▸ hacc'.1
  have hbefore : ∀ off, off < MAXCALLBACKS * 16 → ¬InSpan e.opts.pagesize
      (codemap + MAXCALLBACKS * 16) (MAXCALLBACKS * 16) ((codemap + off) / e.opts.pagesize) :=
    fun off hoff => not_inSpan_of_lt hal (by omega)
  obtain ⟨src, hsrc⟩ := exists_source_of_mapverify hok
  obtain ⟨pr, hsame⟩ := sameBytes_mapverify hsrc hok
  have hgiven := given_mapverify hok
  rw [hostSource_shared hsrc, ← hhost] at hsame
  rw [← hhost] at hgiven
  have hcode₃ : CodeHalf e.opts.pagesize h₃.mem aliasmap codemap fd :=
    hcode.sameBytes (hmem ▸ sameBytes_protectverify ..)
  refine ready_arm64 hw hmin harm hacc (hcode₃.within hwithin hfiles (fun off hoff =>
    hels.of_accepts hw hacc' (by omega) (by omega)) hbefore) ?_ ?_ ?_ d
  · intro off hoff
    rw [hsame.target, Memory.target_mmapFixed_shared hps hal hoff]
  · intro off hoff
    rw [hwithin.prot (hbefore off hoff), hmem,
      prot_protectverify hprotect (inSpan_of_mem hps (by omega) (by omega)) (hmapped off hoff)]
    rfl
  · intro off hoff
    rw [(hgiven _ (inSpan_of_mem hps (by omega) (by omega))).2]
    rfl

/-! A failure after the pages of the entries have been mapped. -/

theorem bufvalid_of_accepts (hw : Works e r box) (hacc : r.Accepts addr size) :
    lfiBoxBufvalid box addr size = true := by
  have hb := hw.region
  have hlo := Nat.mul_le_mul_right r.pagesize hacc.2.2.1
  have hhi := Nat.mul_le_mul_right r.pagesize hacc.2.2.2
  have hle := (hb.end_le hacc).2
  rw [Nat.div_mul_cancel hacc.1, ← hb.lo] at hlo
  rw [Nat.add_mul, Nat.div_mul_cancel hacc.1, ← hb.hi] at hhi
  simp only [lfiBoxBufvalid, Bool.and_eq_true, decide_eq_true_eq]
  omega

/-- Taking away what has been mapped in a free range leaves the table as it was. -/
theorem table_undone {h₁ h₂ : Host} {info : MapInfo} {table : Table} (hw : Works e r box)
    (hacc : r.Accepts addr size) (hfree : box.mm.table.Free (addr / r.pagesize) (r.pages size))
    (hset : Sets e r box h addr size (some info) box' h') (ho : Only e r addr size box' h₁ box'' h₂)
    (htable : table = box''.mm.table.set (addr / r.pagesize) (r.pages size) none) :
    table = box.mm.table := by
  have hal : e.opts.pagesize ∣ addr := hw.region.pagesize ▸ hacc.1
  funext k
  rw [htable, Table.set]
  split
  · rename_i hin
    exact (hfree k hin.1 hin.2).symm
  · rename_i hout
    rw [ho.table k fun hin => hout ((hw.region.inSpan_iff hal).mp hin), hset.table, Table.set,
      if_neg hout]

theorem undo_spec {info : MapInfo} {h₁ h₂ : Host} (hw : Works e r s.box)
    (harm : e.target = arm64) (hacc : r.Accepts addr size)
    (hfree : s.box.mm.table.Free (addr / r.pagesize) (r.pages size))
    (hset : Sets e r s.box h addr size (some info) box' h')
    (ho : Only e r addr size box' h₁ box'' h₂) (host : Host) :
    Initialised e r s a (false, { s with
      box := (boxMunmapLocked e box'' (setOutcomes h₂ a.undo) addr size).2.1
      host := host, cbinfo := { s.cbinfo with aliasmap := 0 } }) := by
  obtain ⟨hu, hcase⟩ := boxMunmap_cases ho.works (setOutcomes h₂ a.undo) addr size
  obtain ⟨mm, hmm⟩ := hset.box_eq
  obtain ⟨mm', hmm'⟩ := ho.box_eq
  obtain ⟨mm'', hmm''⟩ := hu.box_eq
  refine .of_failed rfl ⟨mm'', ?_⟩ hu.works rfl fun hundo => ?_
  · rw [hmm'', hmm', hmm]
  · rcases hcase with ⟨-, -, hfail⟩ | ⟨-, htable⟩
    · have hno : outcome (setOutcomes s.host a.undo) 0 = false :=
        hfail (bufvalid_of_accepts ho.works hacc) hacc
      rw [hundo harm] at hno
      cases hno
    · exact table_undone hw hacc hfree hset ho htable

theorem boxMprotect_eq_neg_one {prot : BitVec 32} {noVerify : Bool}
    (hneg : (boxMprotectLocked e box h addr size prot noVerify).1 < 0) :
    (boxMprotectLocked e box h addr size prot noVerify).1 = -1 := by
  unfold boxMprotectLocked at hneg ⊢
  dsimp only at hneg ⊢
  split_ifs at hneg ⊢
  · rfl
  · rfl
  · rfl
  · exfalso
    revert hneg
    rcases box.mm.protect addr size prot with ⟨err, mm, pieces⟩
    cases err <;> simp

theorem initCbArm64_spec (hw : Works e r s.box) (hmin : 0 < s.box.min) (ha : a.Sound e s.box)
    (harm : e.target = arm64) : Initialised e r s a (initCbArm64 e s a) := by
  have hps : 0 < e.opts.pagesize := hw.region.pagesize ▸ r.pagesize_pos
  have hhalf : 2 * MAXCALLBACKS * 16 / 2 = MAXCALLBACKS * 16 := rfl
  have hkept : ∀ h : Host, Initialised e r s a (false, { s with host := h }) := fun h =>
    .of_failed rfl ⟨s.box.mm, rfl⟩ hw rfl fun _ => rfl
  simp only [initCbArm64, hhalf]
  cases a.memfd with
  | none => exact hkept s.host
  | some fd =>
    dsimp only
    split
    · exact hkept _
    cases halias : a.aliasmap with
    | none => exact hkept _
    | some aliasmap =>
      dsimp only
      have hels := ha aliasmap halias
      rw [dataSize, entrySize, if_pos harm] at hels
      generalize hh : setOutcomes _ a.entries = h
      have hmem : h.mem = (newFile s.host.mem fd).mmapFixed e.opts.pagesize aliasmap
          (MAXCALLBACKS * 16) Prot.readWrite (.sharedFile fd 0) := by
        rw [← hh, setOutcomes]
      have hany := mapany_cases hw h (2 * MAXCALLBACKS * 16) (LFI_PROT_READ ||| LFI_PROT_WRITE)
        (LFI_MAP_ANONYMOUS ||| LFI_MAP_PRIVATE) (-1) 0 false
      generalize boxMapanyLocked e s.box h _ _ _ _ _ _ = u at hany ⊢
      obtain ⟨res, box', h'⟩ := u
      rcases hany with ⟨addr, heq, hacc, hfree, hset, hver, hhost⟩ | ⟨hnone, hbox, hworks, htable, -⟩
      swap
      · dsimp only at hnone hbox hworks htable
        subst hnone
        dsimp only
        exact .of_failed rfl hbox hworks rfl fun _ => htable
      dsimp only at heq hset hhost
      subst heq hhost
      dsimp only
      have hcode := CodeHalf.of_fill hw hels hmem hacc hver
      have hgiven := given_mapverify hver
      -- the code is made executable
      generalize hh' : setOutcomes _ a.protect = h₁
      have hmem' : h₁.mem = fillCode e.opts.pagesize (mapverify e h addr (2 * MAXCALLBACKS * 16)
          (LFI_PROT_READ ||| LFI_PROT_WRITE) (LFI_MAP_ANONYMOUS ||| LFI_MAP_PRIVATE) (-1) 0
            false).2.mem addr 16 cbtrampoline := by
        rw [← hh', setOutcomes]
      rw [← hmem'] at hcode
      obtain ⟨ho, hprotect⟩ := boxMprotect_cases hset.works h₁ addr (MAXCALLBACKS * 16)
        (LFI_PROT_READ ||| LFI_PROT_EXEC) true
      have hneg := @boxMprotect_eq_neg_one e box' h₁ addr (MAXCALLBACKS * 16)
        (LFI_PROT_READ ||| LFI_PROT_EXEC) true
      generalize boxMprotectLocked e box' h₁ _ _ _ _ = v at ho hprotect hneg ⊢
      obtain ⟨res, box'', h₂⟩ := v
      have ho' : Only e r addr (2 * MAXCALLBACKS * 16) box' h₁ box'' h₂ :=
        ho.mono fun p hp => inSpan_mono le_rfl (by omega) hp
      rcases hprotect with hlt | ⟨heq, hver', hhost, -, -⟩
      · dsimp only
        rw [if_pos (hneg hlt)]
        exact undo_spec hw harm hacc hfree hset ho' _
      dsimp only at heq hhost ⊢
      rw [if_neg (by omega)]
      -- the file is mapped over the second half
      generalize hh'' : setOutcomes h₂ a.data = h₃
      have hmem'' : h₃.mem = (protectverify e h₁ addr (MAXCALLBACKS * 16)
          (LFI_PROT_READ ||| LFI_PROT_EXEC) true).2.mem := by
        rw [← hh'', setOutcomes, hhost]
      have hmapat := mapat_cases ho.works h₃ (addr + MAXCALLBACKS * 16) (MAXCALLBACKS * 16)
        LFI_PROT_READ LFI_MAP_SHARED fd 0
      generalize boxMapatLocked e box'' h₃ _ _ _ _ _ _ = w at hmapat ⊢
      obtain ⟨res', box₃, h₄⟩ := w
      have hlast : ∀ entry, r.Accepts (addr + MAXCALLBACKS * 16) (MAXCALLBACKS * 16) →
          Sets e r box'' h₃ (addr + MAXCALLBACKS * 16) (MAXCALLBACKS * 16) entry box₃ h₄ →
            Only e r addr (2 * MAXCALLBACKS * 16) box' h₁ box₃ h₄ := by
        intro entry hacc' hset'
        have hend : addr + MAXCALLBACKS * 16 + MAXCALLBACKS * 16 = addr + 2 * MAXCALLBACKS * 16 := by
          rw [Nat.add_assoc]
          rfl
        have hmono := (hset'.only ho.works hacc').mono fun p hp =>
          inSpan_mono (Nat.le_add_right addr _) hend.le hp
        rw [← hh''] at hmono
        exact ho'.trans ⟨hmono.box_eq, hmono.works, hmono.table,
          ⟨hmono.within.pages, hmono.within.lazy, hmono.within.bytes⟩, hmono.files⟩
      rcases hmapat with ⟨heq', -⟩ | ⟨-, hacc', ⟨hver'', heq', hset', hhost'⟩ | ⟨-, heq', hset', -⟩⟩
      · obtain ⟨rfl, rfl, rfl⟩ : res' = none ∧ box₃ = box'' ∧ h₄ = h₃ := by
          simpa using heq'
        dsimp only
        rw [← hh'']
        exact undo_spec hw harm hacc hfree hset ho' _
      · dsimp only at heq' hset' hhost'
        subst heq'
        dsimp only
        have hmapped : ∀ off, off < MAXCALLBACKS * 16 →
            (h₁.mem.pages ((addr + off) / e.opts.pagesize)).isSome := by
          intro off hoff
          rw [hmem', pages_fillCode]
          exact (hgiven _ (inSpan_of_mem hps (by omega) (by omega))).1
        obtain ⟨mm, hmm⟩ := hset.box_eq
        obtain ⟨mm', hmm'⟩ := ho.box_eq
        obtain ⟨mm'', hmm''⟩ := hset'.box_eq
        refine .of_ready rfl ⟨mm'', ?_⟩ hset'.works ⟨fd, ready_mapped hw hmin harm hels hacc hacc'
          hcode hver' hmapped hmem'' hset'.within hset'.files hver'' hhost' _⟩
        rw [hmm'', show box'' = _ from hmm', hmm]
      · dsimp only at heq' hset'
        subst heq'
        dsimp only
        exact undo_spec hw harm hacc hfree hset (hlast none hacc' hset') _

theorem initCb_spec (hw : Works e r s.box) (hmin : 0 < s.box.min) (ha : a.Sound e s.box) :
    Initialised e r s a (initCb e s a) := by
  rw [initCb]
  split
  · rename_i harm
    exact initCbArm64_spec hw hmin ha harm
  · rename_i harm
    exact initCbX64_spec hw hmin ha harm

end LfiRuntime.Callbacks
