import LfiRuntime.Sbox.CallPtr

/-!
The arguments of a call of a sandbox function arrive where its calling convention
puts them.
-/

namespace LfiRuntime.CallPtr

open LfiRuntime.Align
open LfiRuntime.BlockMemory
open LfiRuntime.Layout
open LfiRuntime.SandboxStack

variable {isa : Isa} {c : Nat} {m : Mem} {sp addr a : Word} {args : List Arg}
  {values : List Value} {p : Mem × MarshalResult}

/-! Both kinds of registers at once. -/

def cells (isa : Isa) (float : Bool) : List Int :=
  if float then floatArgCells isa else intArgCells isa

def idx (r : MarshalResult) (float : Bool) : Nat := if float then r.floatIdx else r.intIdx

def bump (r : MarshalResult) (float : Bool) : MarshalResult :=
  if float then { r with floatIdx := r.floatIdx + 1 } else { r with intIdx := r.intIdx + 1 }

def push (r : MarshalResult) (v : Word) : MarshalResult :=
  { r with stackArgs := r.stackArgs ++ [v] }

def isFloat : Arg → Bool
  | .int _ => false
  | .float _ => true

def val : Arg → Word
  | .int v => v
  | .float v => v

theorem isFloat_arg (v : Value) : isFloat v.arg = v.float := by
  rcases v with ⟨float, size, hle, bits⟩
  cases float <;> rfl

theorem val_arg (v : Value) : val v.arg = v.bits.setWidth 64 := by
  rcases v with ⟨float, size, hle, bits⟩
  cases float <;> rfl

theorem takes_arg (v : Value) : Takes (.int (val v.arg)) v := by
  refine ⟨_, rfl, ?_⟩
  have hle := v.size_le
  rw [val_arg, BitVec.setWidth_setWidth_of_le _ (by omega), BitVec.setWidth_eq]

theorem length_intArgCells (isa : Isa) : (intArgCells isa).length = maxIntRegArgs isa := by
  cases isa <;> rfl

theorem length_floatArgCells (isa : Isa) : (floatArgCells isa).length = maxFloatRegArgs := by
  cases isa <;> rfl

theorem nodup_cells (isa : Isa) : (intArgCells isa ++ floatArgCells isa).Nodup := by
  cases isa <;> decide

/-- An argument that still has a register. -/
theorem marshalArgRegs_of_some {o : Int} (arg : Arg)
    (ho : (cells isa (isFloat arg))[idx p.2 (isFloat arg)]? = some o) :
    marshalArgRegs isa c p arg =
      (p.1.set (.ptr (.ctx c) o) (.int (val arg)), bump p.2 (isFloat arg)) := by
  obtain ⟨hlt, -⟩ := List.getElem?_eq_some_iff.mp ho
  cases arg with
  | int v =>
      have hlt' : p.2.intIdx < maxIntRegArgs isa := length_intArgCells isa ▸ hlt
      have hset : setIntArg isa c p.1 p.2.intIdx v = p.1.set (.ptr (.ctx c) o) (.int v) := by
        rw [setIntArg, setArg, show (intArgCells isa)[p.2.intIdx]? = some o from ho]
      rw [marshalArgRegs, marshalArg, if_pos hlt', if_pos hlt', hset]
      rfl
  | float v =>
      have hlt' : p.2.floatIdx < maxFloatRegArgs := length_floatArgCells isa ▸ hlt
      have hset : setFloatArg isa c p.1 p.2.floatIdx v = p.1.set (.ptr (.ctx c) o) (.int v) := by
        rw [setFloatArg, setArg, show (floatArgCells isa)[p.2.floatIdx]? = some o from ho]
      rw [marshalArgRegs, marshalArg, if_pos hlt', if_pos hlt', hset]
      rfl

/-- One that has none. -/
theorem marshalArgRegs_of_none (arg : Arg)
    (ho : (cells isa (isFloat arg))[idx p.2 (isFloat arg)]? = none) :
    marshalArgRegs isa c p arg = (p.1, push p.2 (val arg)) := by
  have hle := List.getElem?_eq_none_iff.mp ho
  cases arg with
  | int v =>
      have hnot : ¬p.2.intIdx < maxIntRegArgs isa := by
        rw [← length_intArgCells]
        exact Nat.not_lt.mpr hle
      rw [marshalArgRegs, marshalArg, if_neg hnot, if_neg hnot]
      rfl
  | float v =>
      have hnot : ¬p.2.floatIdx < maxFloatRegArgs := by
        rw [← length_floatArgCells isa]
        exact Nat.not_lt.mpr hle
      rw [marshalArgRegs, marshalArg, if_neg hnot, if_neg hnot]
      rfl

/-- The registers of the kind that are still free. -/
def free (isa : Isa) (r : MarshalResult) (float : Bool) : List Int :=
  (cells isa float).drop (idx r float)

theorem free_bump_of_ne (isa : Isa) (r : MarshalResult) {k float : Bool} (h : float ≠ k) :
    free isa (bump r k) float = free isa r float := by
  cases k <;> cases float <;> first | rfl | exact absurd rfl h

theorem free_of_some {r : MarshalResult} {k : Bool} {o : Int}
    (ho : (cells isa k)[idx r k]? = some o) : free isa r k = o :: free isa (bump r k) k := by
  obtain ⟨hlt, rfl⟩ := List.getElem?_eq_some_iff.mp ho
  rw [free, List.drop_eq_getElem_cons hlt]
  cases k <;> rfl

theorem free_of_none {r : MarshalResult} {k : Bool} (ho : (cells isa k)[idx r k]? = none) :
    free isa r k = [] :=
  List.drop_eq_nil_iff.mpr (List.getElem?_eq_none_iff.mp ho)

theorem free_bump_subset (isa : Isa) (r : MarshalResult) (k float : Bool) :
    free isa (bump r k) float ⊆ free isa r float := by
  rcases eq_or_ne float k with rfl | hne
  · intro o ho
    have hdrop : free isa (bump r float) float = (free isa r float).drop 1 := by
      rw [free, free, List.drop_drop]
      cases float <;> rfl
    rw [hdrop] at ho
    exact List.mem_of_mem_drop ho
  · rw [free_bump_of_ne isa r hne]
    exact List.Subset.refl _

/-- A register that is given to an argument is not free any more. -/
theorem not_mem_free_bump {r : MarshalResult} {k float : Bool} {o : Int}
    (ho : (cells isa k)[idx r k]? = some o) : o ∉ free isa (bump r k) float := by
  have hnodup := nodup_cells isa
  obtain ⟨hints, hfloats, hdisjoint⟩ := List.nodup_append.mp hnodup
  have hcells : ∀ k, (cells isa k).Nodup := by
    rintro (_ | _)
    · exact hints
    · exact hfloats
  have hmem : o ∈ cells isa k := List.mem_of_getElem? ho
  rcases eq_or_ne float k with rfl | hne
  · have hfree : (free isa r float).Nodup := (hcells float).sublist (List.drop_sublist _ _)
    rw [free_of_some ho] at hfree
    exact (List.nodup_cons.mp hfree).1
  · intro hfree
    have hother : o ∈ cells isa float := List.mem_of_mem_drop hfree
    cases k <;> cases float
    · exact hne rfl
    · exact hdisjoint o hmem o hother rfl
    · exact hdisjoint o hother o hmem rfl
    · exact hne rfl

/-- Marshalling writes to free registers only. -/
theorem marshal_frame (args : List Arg) {w : W}
    (hw : ∀ k, ∀ o ∈ free isa p.2 k, w ≠ .ptr (.ctx c) o) :
    (args.foldl (marshalArgRegs isa c) p).1 w = p.1 w := by
  induction args generalizing p with
  | nil => rfl
  | cons arg args ih =>
      rw [List.foldl_cons]
      cases ho : (cells isa (isFloat arg))[idx p.2 (isFloat arg)]? with
      | none =>
          rw [marshalArgRegs_of_none arg ho]
          exact ih hw
      | some o =>
          rw [marshalArgRegs_of_some arg ho, ih]
          · refine Cells.set_of_ne _ (hw (isFloat arg) o ?_)
            rw [free_of_some ho]
            exact List.mem_cons_self
          · intro k o' ho'
            exact hw k o' (free_bump_subset isa p.2 _ k ho')

theorem marshal_stackArgs (isa : Isa) (c : Nat) (p : Mem × MarshalResult) (args : List Arg) :
    ∃ ws, (args.foldl (marshalArgRegs isa c) p).2.stackArgs = p.2.stackArgs ++ ws := by
  induction args generalizing p with
  | nil => exact ⟨[], (List.append_nil _).symm⟩
  | cons arg args ih =>
      obtain ⟨ws, hws⟩ := ih (marshalArgRegs isa c p arg)
      rw [List.foldl_cons, hws]
      cases ho : (cells isa (isFloat arg))[idx p.2 (isFloat arg)]? with
      | none =>
          rw [marshalArgRegs_of_none arg ho]
          refine ⟨val arg :: ws, ?_⟩
          exact List.append_assoc p.2.stackArgs [val arg] ws
      | some o =>
          rw [marshalArgRegs_of_some arg ho]
          refine ⟨ws, ?_⟩
          cases isFloat arg <;> rfl

theorem fetch_of_cons {e : Mem} {k : Bool} {regs : Bool → List W} {v : W} {vs : List W}
    (h : regs k = v :: vs) (ks : List Bool) (slot : W) :
    fetch e (k :: ks) regs slot = v :: fetch e ks (Function.update regs k vs) slot := by
  rw [fetch, h]

theorem fetch_of_nil {e : Mem} {k : Bool} {regs : Bool → List W} (h : regs k = []) (ks : List Bool)
    (slot : W) : fetch e (k :: ks) regs slot = e slot :: fetch e ks regs (slot.offset 8) := by
  rw [fetch, h]

/-- Every argument is where the convention has the callee look for it. -/
theorem fetch_marshal (args : List Arg) {q : Mem × MarshalResult} {e : Mem} {slot : W}
    (hq : args.foldl (marshalArgRegs isa c) p = q)
    (hslots : e.Holds slot ((q.2.stackArgs.drop p.2.stackArgs.length).map .int)) :
    fetch e (args.map isFloat)
      (fun k => (free isa p.2 k).map fun o => q.1 (.ptr (.ctx c) o)) slot =
      args.map fun arg => .int (val arg) := by
  induction args generalizing p slot with
  | nil => rfl
  | cons arg args ih =>
      rw [List.foldl_cons] at hq
      rw [List.map_cons, List.map_cons]
      cases ho : (cells isa (isFloat arg))[idx p.2 (isFloat arg)]? with
      | none =>
          rw [marshalArgRegs_of_none arg ho] at hq
          obtain ⟨ws, hws⟩ := marshal_stackArgs isa c (p.1, push p.2 (val arg)) args
          rw [hq, push] at hws
          have hdrop : q.2.stackArgs.drop p.2.stackArgs.length = val arg :: ws := by
            rw [hws, List.append_assoc, List.drop_left]
            rfl
          rw [hdrop] at hslots
          rw [fetch_of_nil (by rw [free_of_none ho, List.map_nil]), hslots.1]
          have hrest : e.Holds (slot.offset 8)
              ((q.2.stackArgs.drop (push p.2 (val arg)).stackArgs.length).map .int) := by
            rw [hws, push, List.drop_left]
            exact hslots.2
          have hfetch := ih hq hrest
          exact congrArg (List.cons _) hfetch
      | some o =>
          rw [marshalArgRegs_of_some arg ho] at hq
          have hval : q.1 (.ptr (.ctx c) o) = .int (val arg) := by
            rw [← hq, marshal_frame]
            · exact Cells.set_self _ _ _
            · intro k o' ho' heq
              obtain ⟨-, rfl⟩ := Word.ptr.inj heq
              exact not_mem_free_bump ho ho'
          rw [fetch_of_cons (by rw [free_of_some ho, List.map_cons]), hval]
          congr 1
          have hregs : Function.update
              (fun k => (free isa p.2 k).map fun o => q.1 (.ptr (.ctx c) o)) (isFloat arg)
              ((free isa (bump p.2 (isFloat arg)) (isFloat arg)).map
                fun o => q.1 (.ptr (.ctx c) o)) =
              fun k => (free isa (bump p.2 (isFloat arg)) k).map
                fun o => q.1 (.ptr (.ctx c) o) := by
            funext k
            rcases eq_or_ne k (isFloat arg) with rfl | hne
            · rw [Function.update_self]
            · rw [Function.update_of_ne hne, free_bump_of_ne isa p.2 hne]
          rw [hregs]
          refine ih hq ?_
          have hstack : (bump p.2 (isFloat arg)).stackArgs = p.2.stackArgs := by
            cases isFloat arg <;> rfl
          rw [hstack]
          exact hslots

/-- The overflow of both kinds of registers. -/
theorem marshal_length (isa : Isa) (c : Nat) (p : Mem × MarshalResult) (args : List Arg) :
    (args.foldl (marshalArgRegs isa c) p).2.stackArgs.length = p.2.stackArgs.length +
      (args.countP (!isFloat ·) - (free isa p.2 false).length) +
      (args.countP isFloat - (free isa p.2 true).length) := by
  induction args generalizing p with
  | nil => simp
  | cons arg args ih =>
      rw [List.foldl_cons, ih]
      cases ho : (cells isa (isFloat arg))[idx p.2 (isFloat arg)]? with
      | none =>
          have hnone := free_of_none ho
          have hfree : ∀ k, free isa (push p.2 (val arg)) k = free isa p.2 k := by
            rintro (_ | _) <;> rfl
          rw [marshalArgRegs_of_none arg ho]
          simp only [hfree]
          cases hk : isFloat arg
          all_goals
            rw [hk] at hnone
            simp only [hnone, hk, push, List.length_append, List.length_singleton, List.length_nil,
              List.countP_cons, Bool.not_false, Bool.not_true, if_true, if_false,
              Bool.false_eq_true]
            omega
      | some o =>
          have hsome := congrArg List.length (free_of_some ho)
          have hother := free_bump_of_ne isa p.2 (Bool.not_ne_self (isFloat arg))
          rw [marshalArgRegs_of_some arg ho]
          have hstack : (bump p.2 (isFloat arg)).stackArgs = p.2.stackArgs := by
            cases isFloat arg <;> rfl
          rw [hstack]
          cases hk : isFloat arg
          all_goals
            rw [hk, List.length_cons] at hsome
            simp only [hk, Bool.not_false, Bool.not_true] at hother
            simp only [hother, hsome, hk, List.countP_cons, Bool.not_false, Bool.not_true, if_true,
              if_false, Bool.false_eq_true]
            omega

/-! Slots. -/

theorem offset_eight (a : Word) : (Word.int a : W).offset 8 = .int (a + 8) := rfl

theorem slot_succ (addr : Word) (i : Nat) :
    addr + 8 + BitVec.ofNat 64 (8 * i) = addr + BitVec.ofNat 64 (8 * (i + 1)) := by
  rw [BitVec.add_assoc, Nat.mul_succ, Nat.add_comm, BitVec.ofNat_add]
  rfl

theorem slot_ne {i : Nat} (addr : Word) (hi : 8 * (i + 1) < 2 ^ 64) :
    addr ≠ addr + BitVec.ofNat 64 (8 * (i + 1)) := by
  intro heq
  have hzero : BitVec.ofNat 64 (8 * (i + 1)) = 0 := BitVec.self_eq_add_right.mp heq
  have hnat := congrArg BitVec.toNat hzero
  rw [BitVec.toNat_ofNat, Nat.mod_eq_of_lt hi] at hnat
  exact absurd hnat (by simp)

theorem writeSlots_of_ne (m : Mem) (addr : Word) (ws : List Word) {w : W}
    (hw : ∀ i < ws.length, w ≠ .int (addr + BitVec.ofNat 64 (8 * i))) :
    writeSlots m addr ws w = m w := by
  induction ws generalizing m addr with
  | nil => rfl
  | cons v ws ih =>
      rw [writeSlots, ih, Cells.set_of_ne]
      · simpa using hw 0 (Nat.zero_lt_succ _)
      · intro i hi
        rw [slot_succ]
        exact hw (i + 1) (Nat.succ_lt_succ hi)

theorem holds_writeSlots (m : Mem) (addr : Word) {ws : List Word}
    (hlen : 8 * ws.length < 2 ^ 64) :
    (writeSlots m addr ws).Holds (.int addr) (ws.map .int) := by
  induction ws generalizing m addr with
  | nil => trivial
  | cons v ws ih =>
      rw [List.length_cons] at hlen
      refine ⟨?_, ih _ _ (by omega)⟩
      rw [writeSlots, writeSlots_of_ne, Cells.set_self]
      intro i hi heq
      rw [slot_succ] at heq
      exact slot_ne addr (by omega) (Word.int.inj heq)

theorem holds_congr {e : Mem} {ws : List W} (h : m.Holds (.int addr) ws)
    (heq : ∀ i < ws.length, e (.int (addr + BitVec.ofNat 64 (8 * i))) =
      m (.int (addr + BitVec.ofNat 64 (8 * i)))) : e.Holds (.int addr) ws := by
  induction ws generalizing addr with
  | nil => trivial
  | cons w ws ih =>
      refine ⟨?_, ih h.2 fun i hi => ?_⟩
      · have hfirst := heq 0 (Nat.zero_lt_succ _)
        rw [Nat.mul_zero, show BitVec.ofNat 64 0 = 0#64 from rfl, BitVec.add_zero] at hfirst
        exact hfirst.trans h.1
      · have hnext := heq (i + 1) (Nat.succ_lt_succ hi)
        rw [← slot_succ] at hnext
        exact hnext

/-! Staging. -/

theorem isAlign_sixteen : IsAlign 16 := ⟨4, by decide, rfl⟩

theorem toNat_aligned (x : Word) : (x &&& ~~~0xF#64).toNat = x.toNat - x.toNat % 16 :=
  toNat_and_not_mask isAlign_sixteen x

/-- The stack pointer that the trampoline loads, with `n` arguments on the stack. -/
def stagedSp (sp : Word) (n : Nat) : Word :=
  if n = 0 then sp else (sp - BitVec.ofNat 64 (8 * n)) &&& ~~~0xF#64

theorem stagedSp_zero (sp : Word) : stagedSp sp 0 = sp := rfl

theorem toNat_stagedSp {n : Nat} (hpos : n ≠ 0) (hn : n ≤ maxArgs) (sp : Word) :
    (stagedSp sp n).toNat = (2 ^ 64 - 8 * n + sp.toNat) % 2 ^ 64 -
      (2 ^ 64 - 8 * n + sp.toNat) % 2 ^ 64 % 16 := by
  rw [maxArgs] at hn
  rw [stagedSp, if_neg hpos, toNat_aligned, BitVec.toNat_sub, BitVec.toNat_ofNat,
    Nat.mod_eq_of_lt (show 8 * n < 2 ^ 64 by omega)]

theorem toNat_stagedSp_of_le {n : Nat} (hpos : n ≠ 0) (hn : n ≤ maxArgs)
    (hroom : 8 * n ≤ sp.toNat) :
    (stagedSp sp n).toNat = sp.toNat - 8 * n - (sp.toNat - 8 * n) % 16 := by
  have hlt := sp.isLt
  have hwrap : (2 ^ 64 - 8 * n + sp.toNat) % 2 ^ 64 = sp.toNat - 8 * n := by
    rw [maxArgs] at hn
    omega
  rw [toNat_stagedSp hpos hn, hwrap]

theorem stagedSp_add_le {n : Nat} (hn : n ≤ maxArgs) (hroom : 8 * n ≤ sp.toNat) :
    (stagedSp sp n).toNat + 8 * n ≤ sp.toNat := by
  rcases eq_or_ne n 0 with rfl | hpos
  · rw [stagedSp_zero]
    omega
  · rw [toNat_stagedSp_of_le hpos hn hroom]
    omega

theorem toNat_slot {n i : Nat} (hn : n ≤ maxArgs) (hroom : 8 * n ≤ sp.toNat) (hi : i < n) :
    (stagedSp sp n + BitVec.ofNat 64 (8 * i)).toNat = (stagedSp sp n).toNat + 8 * i := by
  have hle := stagedSp_add_le hn hroom
  have hlt := sp.isLt
  rw [BitVec.toNat_add, BitVec.toNat_ofNat]
  omega

theorem dvd_stagedSp {n : Nat} (hpos : n ≠ 0) : 16 ∣ (stagedSp sp n).toNat := by
  rw [stagedSp, if_neg hpos, toNat_aligned]
  exact Nat.dvd_sub_mod _

/-- What staging makes of the memory. -/
structure Staged (isa : Isa) (c : Nat) (sp : Word) (ws : List Word) (m u : Mem) : Prop where
  savedSp : u (.ptr (.ctx c) (spCell isa)) = .int (stagedSp sp ws.length)
  slots : u.Holds (.int (stagedSp sp ws.length)) (ws.map .int)
  ptr : ∀ d o, (d = .ctx c → o ≠ spCell isa) → u (.ptr d o) = m (.ptr d o)
  int : ∀ a, (∀ i < ws.length, a ≠ stagedSp sp ws.length + BitVec.ofNat 64 (8 * i)) →
    u (.int a) = m (.int a)

theorem stageStackArgs_spec {ws : List Word} (hlen : ws.length ≤ maxArgs)
    (hsp : m (.ptr (.ctx c) (spCell isa)) = .int sp) :
    Staged isa c sp ws m (stageStackArgs isa c sp ws m) := by
  rw [maxArgs] at hlen
  rcases eq_or_ne ws [] with rfl | hne
  · exact ⟨hsp, trivial, fun _ _ _ => rfl, fun _ _ => rfl⟩
  · have hstaged : stagedSp sp ws.length =
        (sp - BitVec.ofNat 64 (8 * ws.length)) &&& ~~~0xF#64 :=
      if_neg fun h => hne (List.length_eq_zero_iff.mp h)
    rw [stageStackArgs, if_neg hne, ← hstaged]
    refine ⟨Cells.set_self _ _ _, ?_, ?_, ?_⟩
    · refine holds_congr (holds_writeSlots m _ (by omega)) fun i _ => ?_
      exact Cells.set_of_ne _ (by simp)
    · intro d o hcell
      rw [Cells.set_of_ne, writeSlots_of_ne]
      · simp
      · intro heq
        obtain ⟨hd, ho⟩ := Word.ptr.inj heq
        exact hcell hd ho
    · intro a ha
      rw [Cells.set_of_ne _ (by simp), writeSlots_of_ne]
      intro i hi heq
      exact ha i hi (Word.int.inj heq)

theorem cells_ne (isa : Isa) (k : Bool) : ∀ o ∈ cells isa k, o ≠ spCell isa ∧ o ≠ REGS_RETADDR := by
  cases isa <;> cases k <;> decide

/-- What `call_ptr` makes of the memory: `n` arguments lie below the stack pointer, and a
callee that finds these finds all. -/
structure StagedCall (isa : Isa) (c : Nat) (sp : Word) (values : List Value) (n : Nat) (m u : Mem) :
    Prop where
  savedSp : u (.ptr (.ctx c) (spCell isa)) = .int (stagedSp sp n)
  args : ∀ (e : Mem) (slot : W),
    (n ≠ 0 → slot = .int (stagedSp sp n) ∧
      ∀ i < n, e (.int (stagedSp sp n + BitVec.ofNat 64 (8 * i))) =
        u (.int (stagedSp sp n + BitVec.ofNat 64 (8 * i)))) →
    List.Forall₂ Takes (fetch e (values.map Value.float)
      (fun k => (cells isa k).map fun o => u (.ptr (.ctx c) o)) slot) values
  first : n ≠ 0 → ∃ w, u (.int (stagedSp sp n)) = .int w
  ptr : ∀ d o, (d = .ctx c → o ≠ spCell isa ∧ ∀ k, o ∉ cells isa k) → u (.ptr d o) = m (.ptr d o)
  int : ∀ a, (∀ i < n, a ≠ stagedSp sp n + BitVec.ofNat 64 (8 * i)) → u (.int a) = m (.int a)

theorem nStack_le (isa : Isa) (values : List Value) : nStack isa values ≤ values.length := by
  have hsum := List.length_eq_countP_add_countP Value.float (l := values)
  have hints : values.countP (fun v => decide ¬v.float = true) = values.countP (!·.float) :=
    List.countP_congr fun v _ => by simp
  have hfloats : values.countP Value.float = values.countP (·.float) := rfl
  rw [nStack]
  omega

theorem stageCall_spec (hlen : values.length ≤ maxArgs)
    (hsp : m (.ptr (.ctx c) (spCell isa)) = .int sp) :
    StagedCall isa c sp values (nStack isa values) m
      (stageCall isa c sp (values.map Value.arg) m) := by
  let args := values.map Value.arg
  let start : MarshalResult := ⟨[], 0, 0⟩
  let q := args.foldl (marshalArgRegs isa c) (m, start)
  have hfree : ∀ k, free isa start k = cells isa k := by
    rintro (_ | _) <;> rfl
  have hcount : q.2.stackArgs.length = nStack isa values := by
    have hlength := marshal_length isa c (m, start) args
    have hfloat : isFloat ∘ Value.arg = Value.float := funext isFloat_arg
    have hint : (!isFloat ·) ∘ Value.arg = (!Value.float ·) :=
      funext fun v => congrArg Bool.not (isFloat_arg v)
    rw [hfree, hfree, List.countP_map, List.countP_map, hfloat, hint] at hlength
    rw [hlength, nStack, cells, cells, if_neg Bool.false_ne_true, if_pos rfl,
      length_intArgCells, length_floatArgCells]
    exact congrArg (· + _) (Nat.zero_add _)
  have hframe : ∀ w, (∀ k, ∀ o ∈ cells isa k, w ≠ .ptr (.ctx c) o) → q.1 w = m w := by
    intro w hw
    refine marshal_frame (p := (m, start)) args fun k o ho => ?_
    rw [hfree] at ho
    exact hw k o ho
  have hsp' : q.1 (.ptr (.ctx c) (spCell isa)) = .int sp := by
    rw [hframe _ fun k o ho heq => ?_, hsp]
    exact (cells_ne isa k o ho).1 (Word.ptr.inj heq).2.symm
  have hlen' : q.2.stackArgs.length ≤ maxArgs := hcount ▸ (nStack_le isa values).trans hlen
  have hstaged := stageStackArgs_spec hlen' hsp'
  have hcell : ∀ k, ∀ o ∈ cells isa k, stageStackArgs isa c sp q.2.stackArgs q.1 (.ptr (.ctx c) o) =
      q.1 (.ptr (.ctx c) o) := fun k o ho => hstaged.ptr _ _ fun _ => (cells_ne isa k o ho).1
  have hregs : (fun k => (cells isa k).map fun o =>
      stageStackArgs isa c sp q.2.stackArgs q.1 (.ptr (.ctx c) o)) =
      fun k => (free isa start k).map fun o => q.1 (.ptr (.ctx c) o) := by
    funext k
    rw [hfree]
    exact List.map_congr_left (hcell k)
  have hkinds : values.map Value.float = args.map isFloat := by
    rw [List.map_map]
    exact List.map_congr_left fun v _ => (isFloat_arg v).symm
  have hstage : stageCall isa c sp args m = stageStackArgs isa c sp q.2.stackArgs q.1 := rfl
  rw [← hcount, hstage]
  refine ⟨hstaged.savedSp, fun e slot hslots => ?_, fun hpos => ?_, fun d o hd => ?_,
    fun a ha => ?_⟩
  · have hholds : e.Holds slot (q.2.stackArgs.map .int) := by
      rcases eq_or_ne q.2.stackArgs [] with hnil | hne
      · rw [hnil]
        trivial
      · obtain ⟨rfl, hsame⟩ := hslots fun h => hne (List.length_eq_zero_iff.mp h)
        refine holds_congr hstaged.slots fun i hi => hsame i ?_
        rwa [List.length_map] at hi
    rw [hregs, hkinds, fetch_marshal args rfl hholds, List.map_map]
    exact List.forall₂_map_left_iff.mpr (List.forall₂_same.mpr fun v _ => takes_arg v)
  · obtain ⟨w, ws, hws⟩ := List.exists_cons_of_length_pos (Nat.pos_of_ne_zero hpos)
    have hslots := hstaged.slots
    rw [hws] at hslots ⊢
    exact ⟨w, hslots.1⟩
  · rw [hstaged.ptr d o fun heq => (hd heq).1]
    refine hframe _ fun k o' ho' heq => ?_
    obtain ⟨hctx, rfl⟩ := Word.ptr.inj heq
    exact (hd hctx).2 k ho'
  · rw [hstaged.int a ha]
    exact hframe _ fun k o ho => by simp

/-! Entry. -/

/-- A trampoline is called as before, with what `call_ptr` has made of the memory. -/
theorem StagedCall.called_x64 {b : X64.Build} {s : X64.State} {n : Nat} {u : Mem}
    (h : StagedCall .x64 c sp values n s.mem u) (hs : X64.Called b c sp s) :
    X64.Called b c (stagedSp sp n) { s with mem := u } := by
  obtain ⟨k, blk, o, hcall, hslot, hblk, hgs⟩ := hs.call
  refine ⟨⟨k, blk, o, ⟨hcall.rsp, ?_, hcall.above⟩, ?_, hblk, hgs⟩, h.savedSp⟩
  · rw [← hcall.ctxp]
    exact h.ptr _ _ fun heq => absurd heq (by simp)
  · rw [← hslot]
    exact h.ptr _ _ fun heq => absurd heq hblk

theorem toNat_sub_eight (h : 8 ≤ a.toNat) : (a - 8).toNat + 8 = a.toNat := by
  rw [BitVec.toNat_sub_of_le h]
  exact Nat.sub_add_cancel h

/-- Staging has aligned the stack pointer, where there are arguments on the stack. -/
theorem aligned_stagedSp {n : Nat} (hpos : n ≠ 0) :
    stagedSp sp n &&& ~~~0xF#64 = stagedSp sp n := by
  rw [stagedSp, if_neg hpos, BitVec.and_assoc, BitVec.and_self]

/-- The memory from the saved stack pointer up is none of the slots. -/
theorem StagedCall.above {n : Nat} {u : Mem} (h : StagedCall isa c sp values n m u)
    (hn : n ≤ maxArgs) (hroom : 8 * n ≤ sp.toNat) (ha : sp.toNat < a.toNat + 8) :
    u (.int a) = m (.int a) := by
  refine h.int a fun i hi heq => ?_
  have hslot := toNat_slot hn hroom hi
  have hle := stagedSp_add_le hn hroom
  rw [heq, hslot] at ha
  omega

theorem StagedCall.retAddr {n : Nat} {u : Mem} (h : StagedCall isa c sp values n m u) :
    u (.ptr (.ctx c) REGS_RETADDR) = m (.ptr (.ctx c) REGS_RETADDR) := by
  refine h.ptr _ _ fun _ => ⟨?_, fun k hk => (cells_ne isa k _ hk).2 rfl⟩
  cases isa <;> decide

theorem arrived_x64 {s t : X64.State} {n : Nat} {u : Mem} (hn : n ≤ maxArgs)
    (h : StagedCall .x64 c sp values n s.mem u)
    (ht : X64.Entered c (stagedSp sp n) { s with mem := u } t) (hroom : 8 * n + 16 ≤ sp.toNat) :
    Arrived c values sp s.mem (calleeX64 t) := by
  let top := stagedSp sp n &&& ~~~0xF#64
  have htop : top.toNat = (stagedSp sp n).toNat - (stagedSp sp n).toNat % 16 := toNat_aligned _
  have hbelow := stagedSp_add_le hn (show 8 * n ≤ sp.toNat by omega)
  have hge : 16 ≤ top.toNat := by
    rcases eq_or_ne n 0 with rfl | hpos
    · rw [htop, stagedSp_zero]
      omega
    · rw [htop, toNat_stagedSp_of_le hpos hn (by omega)]
      omega
  have hret : (top - 8).toNat + 8 = top.toNat := toNat_sub_eight (by omega)
  have hrsp : t.reg .rsp = .int (top - 8) := ht.rsp
  have hmem : ∀ a, t.mem (.int a) =
      if a = top - 8 then u (.ptr (.ctx c) REGS_RETADDR) else u (.int a) := ht.mem
  have hargs : (calleeX64 t).args = .int top := by
    rw [calleeX64, hrsp, offset_eight, BitVec.sub_add_cancel]
  have hregs : (calleeX64 t).regs = fun k => (cells .x64 k).map fun o => u (.ptr (.ctx c) o) := by
    funext k
    cases k
    · exact ht.ints
    · exact ht.floats
  refine ⟨?_, ⟨top, hargs, ?_⟩, ?_, fun a ha => ?_⟩
  · rw [hregs, hargs]
    refine h.args _ _ fun hpos => ?_
    have hslot : top = stagedSp sp n := aligned_stagedSp hpos
    refine ⟨congrArg Word.int hslot, fun i hi => ?_⟩
    refine (hmem _).trans (if_neg fun heq => ?_)
    have hnat := congrArg BitVec.toNat heq
    rw [toNat_slot hn (by omega) hi, ← hslot] at hnat
    omega
  · rw [htop]
    exact Nat.dvd_sub_mod _
  · calc t.mem (t.reg .rsp) = t.mem (.int (top - 8)) := by rw [hrsp]
      _ = u (.ptr (.ctx c) REGS_RETADDR) := (hmem _).trans (if_pos rfl)
      _ = _ := h.retAddr
  · rw [← h.above hn (by omega) ha]
    refine (hmem a).trans (if_neg fun heq => ?_)
    rw [heq] at ha
    omega

theorem StagedCall.called_arm64 {b : Arm64.Build} {s : Arm64.State} {n : Nat} {u : Mem}
    (h : StagedCall .arm64 c sp values n s.mem u) (hs : Arm64.Called b c sp s) :
    Arm64.Called b c (stagedSp sp n) { s with mem := u } := by
  obtain ⟨k, blk, o, hcall, hslot, hblk⟩ := hs.call
  refine ⟨⟨k, blk, o, ⟨hcall.sp, ?_, hcall.above⟩, ?_, hblk⟩, h.savedSp⟩
  · rw [← hcall.ctxp]
    exact h.ptr _ _ fun heq => absurd heq (by simp)
  · rw [← hslot]
    exact h.ptr _ _ fun heq => absurd heq hblk

theorem arrived_arm64 {s t : Arm64.State} {n : Nat} {u : Mem} (hn : n ≤ maxArgs)
    (h : StagedCall .arm64 c sp values n s.mem u)
    (ht : Arm64.Entered c (stagedSp sp n) { s with mem := u } t) (hroom : 8 * n ≤ sp.toNat)
    (halign : n = 0 → 16 ∣ sp.toNat) : Arrived c values sp s.mem (calleeArm64 t) := by
  have hregs : (calleeArm64 t).regs =
      fun k => (cells .arm64 k).map fun o => u (.ptr (.ctx c) o) := by
    funext k
    cases k
    · exact ht.ints
    · exact ht.floats
  refine ⟨?_, ⟨stagedSp sp n, ht.sp, ?_⟩, ?_, fun a ha => ?_⟩
  · rw [hregs]
    exact h.args _ _ fun _ => ⟨ht.sp, fun i _ => ht.mem _⟩
  · rcases eq_or_ne n 0 with rfl | hpos
    · exact halign rfl
    · exact dvd_stagedSp hpos
  · exact ht.retAddr.trans h.retAddr
  · exact (ht.mem a).trans (h.above hn hroom ha)

/-! Without the room, a call that shows it. -/

theorem room_of_arrived_x64 {s t : X64.State} {n : Nat} {u : Mem} (hn : n ≤ maxArgs)
    (h : StagedCall .x64 c sp values n s.mem u)
    (ht : X64.Entered c (stagedSp sp n) { s with mem := u } t)
    (hbox : ∀ a, s.mem (.ptr (.ctx c) REGS_RETADDR) ≠ s.mem (.int a))
    (harrived : Arrived c values sp s.mem (calleeX64 t)) : 8 * n + 16 ≤ sp.toNat := by
  by_contra hroom
  let top := stagedSp sp n &&& ~~~0xF#64
  have hlt := sp.isLt
  have htop : top.toNat = (stagedSp sp n).toNat - (stagedSp sp n).toNat % 16 := toNat_aligned _
  have hret : (top - 8).toNat = (2 ^ 64 - 8 + top.toNat) % 2 ^ 64 := BitVec.toNat_sub _ _
  have habove : sp.toNat < (top - 8).toNat + 8 := by
    rcases eq_or_ne n 0 with rfl | hpos
    · rw [stagedSp_zero] at htop
      omega
    · rw [toNat_stagedSp hpos hn] at htop
      rw [maxArgs] at hn
      omega
  refine hbox (top - 8) ?_
  rw [← h.retAddr, ← harrived.kept _ habove]
  exact ((ht.mem _).trans (if_pos rfl)).symm

theorem room_of_arrived_arm64 {s t : Arm64.State} {n : Nat} {u : Mem} (hn : n ≤ maxArgs)
    (h : StagedCall .arm64 c sp values n s.mem u)
    (ht : Arm64.Entered c (stagedSp sp n) { s with mem := u } t)
    (hbox : ∀ a w, s.mem (.int a) ≠ .int w)
    (harrived : Arrived c values sp s.mem (calleeArm64 t)) :
    8 * n ≤ sp.toNat ∧ (n = 0 → 16 ∣ sp.toNat) := by
  constructor
  · by_contra hroom
    have hlt := sp.isLt
    have hpos : n ≠ 0 := by
      rintro rfl
      exact hroom (Nat.zero_le _)
    have habove : sp.toNat < (stagedSp sp n).toNat + 8 := by
      rw [toNat_stagedSp hpos hn]
      rw [maxArgs] at hn
      omega
    obtain ⟨w, hw⟩ := h.first hpos
    refine hbox (stagedSp sp n) w ?_
    rw [← harrived.kept _ habove]
    exact (ht.mem _).trans hw
  · rintro rfl
    obtain ⟨k, hk, hdvd⟩ := harrived.aligned
    obtain rfl : sp = k := Word.int.inj (ht.sp.symm.trans hk)
    exact hdvd

/-- The context 0 with this stack pointer, and a sandbox that holds nothing. -/
def sampleMem (isa : Isa) (sp : Word) : Mem
  | .int _ => .undef
  | .ptr (.ctx _) o => if o = spCell isa then .int sp else .int 0
  | w => LazyClone.callMem (.ptr (.ctx 0) 0) w

theorem sampleMem_retAddr (isa : Isa) (sp : Word) :
    sampleMem isa sp (.ptr (.ctx 0) REGS_RETADDR) = .int 0 :=
  if_neg (by cases isa <;> decide)

def sampleX64 (sp : Word) : X64.State :=
  { LazyClone.x64Call (.int 0) with mem := sampleMem .x64 sp }

def sampleArm64 (sp : Word) : Arm64.State :=
  { LazyClone.arm64Call (.int 0) with mem := sampleMem .arm64 sp }

theorem called_sampleX64 (sp : Word) : X64.Called LazyClone.x64Build 0 sp (sampleX64 sp) := by
  refine ⟨⟨0, .slot 0, 0, ⟨rfl, rfl, ?_⟩, rfl, ?_, ?_⟩, rfl⟩
  · intro i _
    simp
  · simp
  · simp [X64.invokeInfo]

theorem called_sampleArm64 (sp : Word) :
    Arm64.Called LazyClone.arm64Build 0 sp (sampleArm64 sp) := by
  refine ⟨⟨0, .slot 0, 0, ⟨rfl, rfl, ?_⟩, rfl, ?_⟩, rfl⟩
  · intro i _
    simp
  · simp

theorem arrives_x64_iff (hlen : values.length ≤ maxArgs) :
    Arrives .x64 values sp ↔ 8 * nStack .x64 values + 16 ≤ sp.toNat := by
  have hn : nStack .x64 values ≤ maxArgs := (nStack_le .x64 values).trans hlen
  constructor
  · intro harrives
    have hcalled := called_sampleX64 sp
    have hstaged := @stageCall_spec .x64 _ _ _ _ hlen hcalled.savedSp
    have hentered := X64.lfiTrampolineStruct_spec LazyClone.x64Clone (hstaged.called_x64 hcalled)
    refine room_of_arrived_x64 hn hstaged hentered (fun a => ?_)
      (harrives _ LazyClone.x64Clone 0 _ hcalled)
    refine ne_of_eq_of_ne (sampleMem_retAddr .x64 sp) ?_
    simp [sampleX64, sampleMem]
  · intro hroom b clone c s hcalled
    have hstaged := @stageCall_spec .x64 _ _ _ _ hlen hcalled.savedSp
    have hentered := X64.lfiTrampolineStruct_spec clone (hstaged.called_x64 hcalled)
    exact arrived_x64 hn hstaged hentered hroom

theorem arrives_arm64_iff (hlen : values.length ≤ maxArgs) :
    Arrives .arm64 values sp ↔
      8 * nStack .arm64 values ≤ sp.toNat ∧ (nStack .arm64 values = 0 → 16 ∣ sp.toNat) := by
  have hn : nStack .arm64 values ≤ maxArgs := (nStack_le .arm64 values).trans hlen
  constructor
  · intro harrives
    have hcalled := called_sampleArm64 sp
    have hstaged := @stageCall_spec .arm64 _ _ _ _ hlen hcalled.savedSp
    have hentered := Arm64.lfiTrampolineStruct_spec LazyClone.arm64Clone
      (hstaged.called_arm64 hcalled)
    exact room_of_arrived_arm64 hn hstaged hentered (fun a w => by simp [sampleArm64, sampleMem])
      (harrives _ LazyClone.arm64Clone 0 _ hcalled)
  · intro hroom b clone c s hcalled
    have hstaged := @stageCall_spec .arm64 _ _ _ _ hlen hcalled.savedSp
    have hentered := Arm64.lfiTrampolineStruct_spec clone (hstaged.called_arm64 hcalled)
    exact arrived_arm64 hn hstaged hentered hroom.1 hroom.2

/-- The arguments arrive exactly in calls that have the room. -/
theorem arrives_iff (isa : Isa) (values : List Value) (sp : Word)
    (hlen : values.length ≤ maxArgs) : Arrives isa values sp ↔ Fits isa values sp := by
  cases isa with
  | x64 => exact arrives_x64_iff hlen
  | arm64 => exact arrives_arm64_iff hlen

/-- A pointer. -/
def sampleValue : Value := ⟨false, 8, le_rfl, 0x100001000⟩

/-- A double. -/
def sampleDouble : Value := ⟨true, 8, le_rfl, 0x3ff0000000000000⟩

/-- Seven pointers around three doubles, more than x64 has registers for. -/
def manyPointers : List Value :=
  List.replicate 4 sampleValue ++ List.replicate 3 sampleDouble ++ List.replicate 3 sampleValue

/-- A pointer among nine doubles, more than there are registers for. -/
def manyDoubles : List Value :=
  List.replicate 5 sampleDouble ++ sampleValue :: List.replicate 4 sampleDouble

theorem arrives_sample :
    nStack .x64 manyPointers = 1 ∧ nStack .x64 manyDoubles = 1 ∧ nStack .arm64 manyDoubles = 1 ∧
      (Arrives .x64 manyPointers 0x100010000 ↔ Fits .x64 manyPointers 0x100010000) ∧
      (Arrives .x64 manyDoubles 0x100010000 ↔ Fits .x64 manyDoubles 0x100010000) ∧
      (Arrives .arm64 manyDoubles 0x100010000 ↔ Fits .arm64 manyDoubles 0x100010000) :=
  ⟨by decide, by decide, by decide, arrives_iff .x64 manyPointers _ (by decide),
    arrives_iff .x64 manyDoubles _ (by decide), arrives_iff .arm64 manyDoubles _ (by decide)⟩

/-- The call of a function of one pointer on AArch64, with a value of four bytes pushed. -/
theorem not_arrives_sample : ¬Arrives .arm64 [sampleValue] 0x10000fffc := by
  intro h
  exact absurd ((arrives_arm64_iff (by decide)).mp h).2 (by decide)

end LfiRuntime.CallPtr
