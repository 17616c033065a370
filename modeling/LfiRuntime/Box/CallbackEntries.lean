import LfiRuntime.Box.Callbacks

/-!
The callback entries of a box once `init_cb` has succeeded: what the host stores in
the alias table is what the code in the sandbox loads.
-/

namespace LfiRuntime.Callbacks

open LfiRuntime.Box
open LfiRuntime.Config
open LfiRuntime.HostCalls
open LfiRuntime.PagedMemory

/-- The size of the table that the alias shows. -/
def dataSize (t : Target) : Nat := MAXCALLBACKS * entrySize t

/-- Where the sandbox has the table. -/
def dataBase (e : Engine) (s : State) : Nat :=
  if e.target = arm64 then s.cbinfo.entries + MAXCALLBACKS * 16 else s.cbinfo.entries

def entryCode (t : Target) : List UInt8 := if t = arm64 then cbtrampoline else cbentryCode

/-- The entries are in place, over the file `f`. -/
structure Ready (e : Engine) (s : State) (f : Int) : Prop where
  entries : s.cbinfo.entries ≠ 0
  aliasCell : ∀ off, off < dataSize e.target →
    s.host.mem.target e.opts.pagesize (s.cbinfo.aliasmap + off) = .file f off
  dataCell : ∀ off, off < dataSize e.target →
    s.host.mem.target e.opts.pagesize (dataBase e s + off) = .file f off
  code : ∀ slot, s.host.mem.readRange e.opts.pagesize (entryAddr e s slot) 16 = entryCode e.target
  apart : ∀ slot j, j < 16 → ∀ slot' k, k < 16 →
    s.host.mem.cell e.opts.pagesize (entryAddr e s slot + j) ≠
      .file f (targetOff e.target slot' + k)
  exec : ∀ slot j, j < 16 →
    (s.host.mem.prot ((entryAddr e s slot + j) / e.opts.pagesize)).exec = true
  readable : ∀ off, off < dataSize e.target →
    (s.host.mem.prot ((dataBase e s + off) / e.opts.pagesize)).read = true

/-- The target and the trampoline that the file holds for a slot. -/
def entryWords (t : Target) (F : Nat → UInt8) (slot : Slot) : BitVec 64 × BitVec 64 :=
  (wordAt F (targetOff t slot), wordAt F (trampolineOff t slot))

variable {e : Engine} {s : State} {f : Int} {slot slot' : Slot}

theorem dataSize_pos (t : Target) : 0 < dataSize t := by
  simp only [dataSize, entrySize, MAXCALLBACKS]
  split <;> omega

theorem targetOff_lt (t : Target) (slot : Slot) : targetOff t slot + 16 ≤ dataSize t := by
  have hlt := slot.isLt
  simp only [MAXCALLBACKS] at hlt
  simp only [targetOff, dataSize, entrySize, MAXCALLBACKS]
  split <;> omega

theorem targetOff_apart (t : Target) (hne : slot' ≠ slot) :
    targetOff t slot' + 16 ≤ targetOff t slot ∨ targetOff t slot + 16 ≤ targetOff t slot' := by
  have hval : (slot' : Nat) ≠ slot := fun heq => hne (Fin.ext heq)
  simp only [targetOff]
  split <;> omega

/-! Loads of the sandbox. -/

theorem readRange_drop_take (ps : Nat) (m : Memory) (a k n len : Nat) (h : k + n ≤ len) :
    m.readRange ps (a + k) n = ((m.readRange ps a len).drop k).take n := by
  apply List.ext_getElem
  · simp
    omega
  · intro i hi hi'
    simp [Memory.readRange, Nat.add_assoc]

theorem load64_data (h : Ready e s f) {off : Nat} (hoff : off + 8 ≤ dataSize e.target) :
    s.host.mem.load64 e.opts.pagesize (dataBase e s + off) = wordAt (s.host.mem.files f) off := by
  apply Memory.load64_file
  intro k hk
  rw [Nat.add_assoc]
  exact Memory.cell_eq_target (h.dataCell (off + k) (by omega))

theorem dataBase_target (e : Engine) (s : State) (slot : Slot) :
    dataBase e s + targetOff e.target slot =
      entryAddr e s slot + if e.target = arm64 then MAXCALLBACKS * 16 else 16 := by
  simp only [dataBase, targetOff, entryAddr, entrySize]
  split <;> omega

/-- The entry code loads the two words of its slot. -/
theorem branch_of_code {m : Memory} (hcode : m.readRange e.opts.pagesize (entryAddr e s slot) 16 =
      entryCode e.target) :
    branch e m (entryAddr e s slot) =
      some (m.load64 e.opts.pagesize (dataBase e s + targetOff e.target slot),
        m.load64 e.opts.pagesize (dataBase e s + trampolineOff e.target slot)) := by
  rw [trampolineOff, ← Nat.add_assoc, dataBase_target, Callbacks.branch]
  by_cases harm : e.target = arm64
  · rw [entryCode, if_pos harm] at hcode
    simp only [if_pos harm]
    have hword : ∀ k, k + 4 ≤ 16 →
        m.readRange e.opts.pagesize (entryAddr e s slot + k) 4 = (cbtrampoline.drop k).take 4 := by
      intro k hk
      rw [← hcode]
      exact readRange_drop_take _ _ _ _ _ _ hk
    have hldr : ldrLiteral (ofBytes ((cbtrampoline.drop 0).take 4)) = some (27, 65536) := by
      decide
    have hldr' : ldrLiteral (ofBytes ((cbtrampoline.drop 4).take 4)) = some (28, 65540) := by
      decide
    have hbr : brRegister (ofBytes ((cbtrampoline.drop 8).take 4)) = some 28 := by
      decide
    rw [branchArm64]
    simp only [hword 0 (by omega), hword 4 (by omega), hword 8 (by omega), hldr, hldr', hbr,
      if_true]
    have htargetAddr : (↑(entryAddr e s slot) + (65536 : Int)).toNat =
        entryAddr e s slot + MAXCALLBACKS * 16 := by
      simp only [MAXCALLBACKS]
      omega
    have htrampolineAddr : (↑(entryAddr e s slot + 4) + (65540 : Int)).toNat =
        entryAddr e s slot + MAXCALLBACKS * 16 + 8 := by
      simp only [MAXCALLBACKS]
      omega
    rw [htargetAddr, htrampolineAddr]
  · rw [entryCode, if_neg harm] at hcode
    simp only [if_neg harm]
    have hbytes : m.readRange e.opts.pagesize (entryAddr e s slot) 13 = cbentryCode.take 13 := by
      rw [← hcode]
      exact readRange_drop_take e.opts.pagesize m (entryAddr e s slot) 0 13 16 (by omega)
    rw [branchX64, hbytes, if_pos (by decide)]
    rfl

/-- The sandbox goes through the trampoline of the slot, with its target. -/
theorem Ready.branch (h : Ready e s f) (slot : Slot) :
    branch e s.host.mem (entryAddr e s slot) =
      some (entryWords e.target (s.host.mem.files f) slot) := by
  have hlt := targetOff_lt e.target slot
  rw [branch_of_code (h.code slot), entryWords, load64_data h (by omega),
    load64_data h (by rw [trampolineOff]; omega)]

/-! Stores of the host. -/

/-- What the two stores do to the file. -/
def setWords (F : Nat → UInt8) (t : Target) (slot : Slot) (target trampoline : BitVec 64) :
    Nat → UInt8 :=
  patch (patch F (targetOff t slot) (leBytes 8 target.toNat)) (trampolineOff t slot)
    (leBytes 8 trampoline.toNat)

theorem entryWords_setWords (F : Nat → UInt8) (t : Target) (slot slot' : Slot)
    (target trampoline : BitVec 64) :
    entryWords t (setWords F t slot target trampoline) slot' =
      if slot' = slot then (target, trampoline) else entryWords t F slot' := by
  unfold entryWords setWords
  split
  · rename_i heq
    rw [heq, wordAt_patch_self, wordAt_patch_of_not, wordAt_patch_self]
    exact .inl (by rw [trampolineOff])
  · rename_i hne
    have hapart := targetOff_apart t hne
    have hlen : ∀ v : BitVec 64, (leBytes 8 v.toNat).length = 8 := fun v => length_leBytes 8 _
    simp only [trampolineOff]
    rw [wordAt_patch_of_not, wordAt_patch_of_not, wordAt_patch_of_not, wordAt_patch_of_not] <;>
      rw [hlen] <;> omega

theorem setWords_of_not (F : Nat → UInt8) (t : Target) (slot : Slot)
    (target trampoline : BitVec 64) {o : Nat}
    (ho : o < targetOff t slot ∨ targetOff t slot + 16 ≤ o) :
    setWords F t slot target trampoline o = F o := by
  unfold setWords
  rw [patch_of_not, patch_of_not] <;> simp only [length_leBytes, trampolineOff] <;> omega

/-- The alias shows the file. -/
theorem setEntry_of_alias (halias : ∀ off, off < dataSize e.target →
      s.host.mem.target e.opts.pagesize (s.cbinfo.aliasmap + off) = .file f off) (slot : Slot)
    (target trampoline : BitVec 64) :
    setEntry e s slot target trampoline =
      { s with host.mem := { s.host.mem with
          files := Function.update s.host.mem.files f
            (setWords (s.host.mem.files f) e.target slot target trampoline) } } := by
  have hlt := targetOff_lt e.target slot
  have hcell : ∀ off, off < 16 →
      s.host.mem.target e.opts.pagesize (s.cbinfo.aliasmap + targetOff e.target slot + off) =
        .file f (targetOff e.target slot + off) := by
    intro off hoff
    rw [Nat.add_assoc]
    exact halias _ (by omega)
  unfold setEntry
  have hfirst := @Memory.writeBytes_file _ _ _ _ _ (leBytes 8 target.toNat)
    (fun k hk => hcell k (by simp at hk; omega))
  simp only [Memory.store64, hfirst]
  rw [Memory.writeBytes_file (f := f) (o := trampolineOff e.target slot)]
  · simp only [Function.update_self, Function.update_idem]
    rfl
  · intro k hk
    have hnext := hcell (8 + k) (by simp at hk; omega)
    rw [← Nat.add_assoc, ← Nat.add_assoc] at hnext
    exact hnext

theorem setEntry_eq (h : Ready e s f) (slot : Slot) (target trampoline : BitVec 64) :
    setEntry e s slot target trampoline =
      { s with host.mem := { s.host.mem with
          files := Function.update s.host.mem.files f
            (setWords (s.host.mem.files f) e.target slot target trampoline) } } :=
  setEntry_of_alias h.aliasCell slot target trampoline

theorem Ready.setEntry (h : Ready e s f) (slot : Slot) (target trampoline : BitVec 64) :
    Ready e (setEntry e s slot target trampoline) f := by
  rw [setEntry_eq h]
  refine ⟨h.entries, h.aliasCell, h.dataCell, ?_, h.apart, h.exec, h.readable⟩
  intro slot'
  refine Eq.trans (Memory.readRange_files fun j hj o hcell => ?_) (h.code slot')
  apply setWords_of_not
  by_contra hin
  refine h.apart slot' j hj slot (o - targetOff e.target slot) (by omega) (hcell.trans ?_)
  congr 1
  omega

end LfiRuntime.Callbacks
