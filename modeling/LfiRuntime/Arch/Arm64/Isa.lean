import LfiRuntime.Arch.Layout

/-!
The AArch64 instructions of the transition code, over 64-bit cells. The `d`
forms of the vector instructions use the low lane, the `q` forms both.
-/

namespace LfiRuntime.Arm64

open LfiRuntime.BlockMemory
open LfiRuntime.Layout

inductive Reg
  | x (n : Fin 31)
  | sp
  | xzr
deriving DecidableEq, Repr

/-- The flags are those of the last operation that set them. -/
inductive Flags
  | logic (v : W)
  | sub (a b : W)
  | host (n : Nat)
deriving DecidableEq, Repr

structure State where
  x : Fin 31 → W
  sp : W
  /-- The two 64-bit lanes of a vector register, low lane first. -/
  v : Fin 32 → W × W
  mem : Mem
  flags : Flags
  fpsr : W
  pc : W
  thread : Nat

namespace State

def reg (s : State) : Reg → W
  | .x n => s.x n
  | .sp => s.sp
  | .xzr => .int 0

def setReg (s : State) : Reg → W → State
  | .x n, w => { s with x := fun m => if m = n then w else s.x m }
  | .sp, w => { s with sp := w }
  | .xzr, _ => s

def setV (s : State) (n : Fin 32) (l : W × W) : State :=
  { s with v := fun m => if m = n then l else s.v m }

def setMem (s : State) (a w : W) : State := { s with mem := s.mem.set a w }

def setPc (s : State) (w : W) : State := { s with pc := w }

end State

inductive Instr
  | paciasp
  | autiasp
  | stpPre (a b : Reg) (n : Int)
  | ldpPost (a b : Reg) (n : Int)
  | stpdPre (a b : Fin 32) (n : Int)
  | ldpdPost (a b : Fin 32) (n : Int)
  | stpqPre (a b : Fin 32) (n : Int)
  | ldpqPost (a b : Fin 32) (n : Int)
  | strPre (r : Reg) (n : Int)
  | ldrPost (r : Reg) (n : Int)
  | ldr (r base : Reg) (d : Int)
  | str (r base : Reg) (d : Int)
  | ldp (a b base : Reg) (d : Int)
  | stp (a b base : Reg) (d : Int)
  | ldrd (a : Fin 32) (base : Reg) (d : Int)
  | strd (a : Fin 32) (base : Reg) (d : Int)
  | ldpq (a b : Fin 32) (base : Reg) (d : Int)
  | stpq (a b : Fin 32) (base : Reg) (d : Int)
  | mov (dst src : Reg)
  | movImm (dst : Reg) (n : BitVec 64)
  | leaSite (dst : Reg) (t : Site)
  | add (dst a b : Reg)
  | addUxtw (dst a b : Reg)
  | subImm (dst a : Reg) (n : Int)
  | cmpImm (a : Reg) (n : BitVec 64)
  | ands
  | movi (a : Fin 32)
  | movHigh (a : Fin 32)
  | msrFpsr
  | mrsTpidr (dst : Reg)
  | bl (t : Site)
  | blr (r : Reg) (t : Site)
  | br (r : Reg)
  | ret
deriving DecidableEq, Repr

/-- What `autiasp` makes of a return address: it fails, and leaves a word that
points nowhere, unless the address was signed with the same stack pointer. -/
def authenticate (sp : W) : W → W
  | .signed p m => if m = sp then p else .undef
  | _ => .undef

def exec1 (s : State) : Instr → State
  | .paciasp => s.setReg (.x 30) (.signed (s.x 30) s.sp)
  | .autiasp => s.setReg (.x 30) (authenticate s.sp (s.x 30))
  | .stpPre a b n =>
      let sp := s.sp.offset n
      ((s.setReg .sp sp).setMem sp (s.reg a)).setMem (sp.offset 8) (s.reg b)
  | .ldpPost a b n =>
      ((s.setReg .sp (s.sp.offset n)).setReg a (s.mem s.sp)).setReg b (s.mem (s.sp.offset 8))
  | .stpdPre a b n =>
      let sp := s.sp.offset n
      ((s.setReg .sp sp).setMem sp (s.v a).1).setMem (sp.offset 8) (s.v b).1
  | .ldpdPost a b n =>
      ((s.setReg .sp (s.sp.offset n)).setV a (s.mem s.sp, .int 0)).setV b
        (s.mem (s.sp.offset 8), .int 0)
  | .stpqPre a b n =>
      let sp := s.sp.offset n
      ((((s.setReg .sp sp).setMem sp (s.v a).1).setMem (sp.offset 8) (s.v a).2).setMem
        (sp.offset 16) (s.v b).1).setMem (sp.offset 24) (s.v b).2
  | .ldpqPost a b n =>
      ((s.setReg .sp (s.sp.offset n)).setV a (s.mem s.sp, s.mem (s.sp.offset 8))).setV b
        (s.mem (s.sp.offset 16), s.mem (s.sp.offset 24))
  | .strPre r n => (s.setReg .sp (s.sp.offset n)).setMem (s.sp.offset n) (s.reg r)
  | .ldrPost r n => (s.setReg .sp (s.sp.offset n)).setReg r (s.mem s.sp)
  | .ldr r base d => s.setReg r (s.mem ((s.reg base).offset d))
  | .str r base d => s.setMem ((s.reg base).offset d) (s.reg r)
  | .ldp a b base d =>
      (s.setReg a (s.mem ((s.reg base).offset d))).setReg b
        (s.mem ((s.reg base).offset (d + 8)))
  | .stp a b base d =>
      (s.setMem ((s.reg base).offset d) (s.reg a)).setMem ((s.reg base).offset (d + 8))
        (s.reg b)
  | .ldrd a base d => s.setV a (s.mem ((s.reg base).offset d), .int 0)
  | .strd a base d => s.setMem ((s.reg base).offset d) (s.v a).1
  | .ldpq a b base d =>
      (s.setV a (s.mem ((s.reg base).offset d), s.mem ((s.reg base).offset (d + 8)))).setV b
        (s.mem ((s.reg base).offset (d + 16)), s.mem ((s.reg base).offset (d + 24)))
  | .stpq a b base d =>
      (((s.setMem ((s.reg base).offset d) (s.v a).1).setMem ((s.reg base).offset (d + 8))
        (s.v a).2).setMem ((s.reg base).offset (d + 16)) (s.v b).1).setMem
        ((s.reg base).offset (d + 24)) (s.v b).2
  | .mov dst src => s.setReg dst (s.reg src)
  | .movImm dst n => s.setReg dst (.int n)
  | .leaSite dst t => s.setReg dst (.ptr (.text t) 0)
  | .add dst a b => s.setReg dst ((s.reg b).add (s.reg a))
  | .addUxtw dst a b =>
      s.setReg dst (((s.reg b).map fun n => (n.truncate 32).zeroExtend 64).add (s.reg a))
  | .subImm dst a n => s.setReg dst ((s.reg a).offset (-n))
  | .cmpImm a n => { s with flags := .sub (s.reg a) (.int n) }
  | .ands => { s with flags := .logic (.int 0) }
  | .movi a => s.setV a (.int 0, .int 0)
  | .movHigh a => s.setV a ((s.v a).1, .int 0)
  | .msrFpsr => { s with fpsr := .int 0 }
  | .mrsTpidr dst => s.setReg dst (.ptr (.tls s.thread) 0)
  | .bl t => (s.setReg (.x 30) (.ptr (.after t) 0)).setPc (.ptr (.text t) 0)
  | .blr r t => (s.setReg (.x 30) (.ptr (.after t) 0)).setPc (s.reg r)
  | .br r => s.setPc (s.reg r)
  | .ret => s.setPc (s.x 30)

def exec (is : List Instr) (s : State) : State := is.foldl exec1 s

@[simp] theorem exec_nil (s : State) : exec [] s = s := rfl

@[simp] theorem exec_cons (i : Instr) (is : List Instr) (s : State) :
    exec (i :: is) s = exec is (exec1 s i) := rfl

theorem exec_append (is js : List Instr) (s : State) :
    exec (is ++ js) s = exec js (exec is s) := List.foldl_append

namespace State

variable (s : State) (n m : Fin 31) (i j : Fin 32) (a w : W) (l : W × W) (r : Reg)

@[simp] theorem reg_x : s.reg (.x n) = s.x n := rfl
@[simp] theorem reg_sp : s.reg .sp = s.sp := rfl
@[simp] theorem reg_xzr : s.reg .xzr = .int 0 := rfl

@[simp] theorem x_setReg_x : (s.setReg (.x n) w).x m = if m = n then w else s.x m := rfl
@[simp] theorem x_setReg_sp : (s.setReg .sp w).x = s.x := rfl
@[simp] theorem sp_setReg_x : (s.setReg (.x n) w).sp = s.sp := rfl
@[simp] theorem sp_setReg_sp : (s.setReg .sp w).sp = w := rfl
@[simp] theorem setReg_xzr : s.setReg .xzr w = s := rfl
@[simp] theorem v_setReg : (s.setReg r w).v = s.v := by cases r <;> rfl
@[simp] theorem mem_setReg : (s.setReg r w).mem = s.mem := by cases r <;> rfl
@[simp] theorem fpsr_setReg : (s.setReg r w).fpsr = s.fpsr := by cases r <;> rfl
@[simp] theorem pc_setReg : (s.setReg r w).pc = s.pc := by cases r <;> rfl
@[simp] theorem thread_setReg : (s.setReg r w).thread = s.thread := by cases r <;> rfl

@[simp] theorem x_setV : (s.setV i l).x = s.x := rfl
@[simp] theorem sp_setV : (s.setV i l).sp = s.sp := rfl
@[simp] theorem v_setV : (s.setV i l).v j = if j = i then l else s.v j := rfl
@[simp] theorem mem_setV : (s.setV i l).mem = s.mem := rfl
@[simp] theorem fpsr_setV : (s.setV i l).fpsr = s.fpsr := rfl
@[simp] theorem pc_setV : (s.setV i l).pc = s.pc := rfl
@[simp] theorem thread_setV : (s.setV i l).thread = s.thread := rfl

@[simp] theorem x_setMem : (s.setMem a w).x = s.x := rfl
@[simp] theorem sp_setMem : (s.setMem a w).sp = s.sp := rfl
@[simp] theorem v_setMem : (s.setMem a w).v = s.v := rfl
@[simp] theorem mem_setMem : (s.setMem a w).mem = s.mem.set a w := rfl
@[simp] theorem fpsr_setMem : (s.setMem a w).fpsr = s.fpsr := rfl
@[simp] theorem pc_setMem : (s.setMem a w).pc = s.pc := rfl
@[simp] theorem thread_setMem : (s.setMem a w).thread = s.thread := rfl

@[simp] theorem x_setPc : (s.setPc w).x = s.x := rfl
@[simp] theorem sp_setPc : (s.setPc w).sp = s.sp := rfl
@[simp] theorem v_setPc : (s.setPc w).v = s.v := rfl
@[simp] theorem mem_setPc : (s.setPc w).mem = s.mem := rfl
@[simp] theorem fpsr_setPc : (s.setPc w).fpsr = s.fpsr := rfl
@[simp] theorem pc_setPc : (s.setPc w).pc = w := rfl
@[simp] theorem thread_setPc : (s.setPc w).thread = s.thread := rfl

end State

/-- The registers a C function keeps for its caller. -/
def calleeSaved : List (Fin 31) := [19, 20, 21, 22, 23, 24, 25, 26, 27, 28, 29]

/-- The vector registers of which it keeps the low lane. -/
def calleeSavedV : List (Fin 32) := [8, 9, 10, 11, 12, 13, 14, 15]

/-- A C function entered in `s`, with its return address in `x30`, may return
in `t`. -/
structure CReturn (s t : State) : Prop where
  sp : t.sp = s.sp
  saved : ∀ n ∈ calleeSaved, t.x n = s.x n
  savedV : ∀ n ∈ calleeSavedV, (t.v n).1 = (s.v n).1
  stack : ∀ k, s.sp = .ptr (.stack s.thread) k → ∀ o, k ≤ o →
    t.mem (.ptr (.stack s.thread) o) = s.mem (.ptr (.stack s.thread) o)
  pc : t.pc = s.x 30
  thread : t.thread = s.thread

/-- A C function that returns. -/
structure HostFn where
  run : State → State
  returns : ∀ s, CReturn s (run s)

/-- The registers an instruction may change. -/
def Instr.regs : Instr → List Reg
  | .paciasp | .autiasp | .bl _ | .blr _ _ => [.x 30]
  | .stpPre _ _ _ | .stpdPre _ _ _ | .stpqPre _ _ _ | .strPre _ _ => [.sp]
  | .ldpPost a b _ => [.sp, a, b]
  | .ldpdPost _ _ _ | .ldpqPost _ _ _ => [.sp]
  | .ldrPost r _ => [.sp, r]
  | .ldr r _ _ => [r]
  | .ldp a b _ _ => [a, b]
  | .mov dst _ | .movImm dst _ | .leaSite dst _ | .mrsTpidr dst => [dst]
  | .add dst _ _ | .addUxtw dst _ _ | .subImm dst _ _ => [dst]
  | .str _ _ _ | .stp _ _ _ _ | .ldrd _ _ _ | .strd _ _ _ | .ldpq _ _ _ _ | .stpq _ _ _ _ => []
  | .cmpImm _ _ | .ands | .movi _ | .movHigh _ | .msrFpsr | .br _ | .ret => []

def Instr.vs : Instr → List (Fin 32)
  | .ldpdPost a b _ | .ldpqPost a b _ | .ldpq a b _ _ => [a, b]
  | .ldrd a _ _ | .movi a | .movHigh a => [a]
  | _ => []

/-- Whether an instruction writes to memory. -/
def Instr.stores : Instr → Bool
  | .stpPre _ _ _ | .stpdPre _ _ _ | .stpqPre _ _ _ | .strPre _ _ => true
  | .str _ _ _ | .stp _ _ _ _ | .strd _ _ _ | .stpq _ _ _ _ => true
  | _ => false

theorem exec_keeps {α : Type} (f : State → α) (P : Instr → Prop)
    (h : ∀ i s, P i → f (exec1 s i) = f s) {is : List Instr} (his : ∀ i ∈ is, P i) (s : State) :
    f (exec is s) = f s := by
  induction is generalizing s with
  | nil => rfl
  | cons i is ih =>
      rw [exec_cons, ih (fun j hj => his j (List.mem_cons_of_mem _ hj)), h i s]
      exact his i List.mem_cons_self

theorem State.reg_setReg_of_ne (s : State) {r q : Reg} (w : W) (h : r ≠ q) :
    (s.setReg q w).reg r = s.reg r := by
  cases q with
  | x n =>
      cases r with
      | x m =>
          have hne : m ≠ n := fun heq => h (congrArg Reg.x heq)
          simp [hne]
      | sp => rfl
      | xzr => rfl
  | sp =>
      cases r with
      | x m => rfl
      | sp => exact absurd rfl h
      | xzr => rfl
  | xzr => rfl

@[simp] theorem State.reg_setMem (s : State) (a w : W) (r : Reg) :
    (s.setMem a w).reg r = s.reg r := by
  cases r <;> rfl

@[simp] theorem State.reg_setV (s : State) (i : Fin 32) (l : W × W) (r : Reg) :
    (s.setV i l).reg r = s.reg r := by
  cases r <;> rfl

@[simp] theorem State.reg_setPc (s : State) (w : W) (r : Reg) :
    (s.setPc w).reg r = s.reg r := by
  cases r <;> rfl

theorem reg_exec1 {i : Instr} {r : Reg} (h : r ∉ i.regs) (s : State) :
    (exec1 s i).reg r = s.reg r := by
  cases i
  case cmpImm | ands | msrFpsr => cases r <;> rfl
  all_goals
    simp only [Instr.regs, List.mem_cons, List.not_mem_nil, or_false, not_or] at h
    simp [exec1, State.reg_setReg_of_ne, h]

theorem v_exec1 {i : Instr} {n : Fin 32} (h : n ∉ i.vs) (s : State) :
    (exec1 s i).v n = s.v n := by
  cases i
  all_goals
    simp only [Instr.vs, List.mem_cons, List.not_mem_nil, or_false, not_or] at h
    simp [exec1, h]

theorem mem_exec1 {i : Instr} (h : i.stores = false) (s : State) :
    (exec1 s i).mem = s.mem := by
  cases i
  all_goals first
    | simp [exec1]; done
    | simp [Instr.stores] at h

theorem thread_exec1 (i : Instr) (s : State) : (exec1 s i).thread = s.thread := by
  cases i <;> simp [exec1]

/-- Registers that no instruction changes. -/
theorem reg_exec {is : List Instr} {r : Reg} (h : ∀ i ∈ is, r ∉ i.regs) (s : State) :
    (exec is s).reg r = s.reg r :=
  exec_keeps (·.reg r) (r ∉ ·.regs) (fun _ s hi => reg_exec1 hi s) h s

theorem x_exec {is : List Instr} {n : Fin 31} (h : ∀ i ∈ is, .x n ∉ i.regs) (s : State) :
    (exec is s).x n = s.x n :=
  reg_exec h s

theorem v_exec {is : List Instr} {n : Fin 32} (h : ∀ i ∈ is, n ∉ i.vs) (s : State) :
    (exec is s).v n = s.v n :=
  exec_keeps (·.v n) (n ∉ ·.vs) (fun _ s hi => v_exec1 hi s) h s

theorem mem_exec {is : List Instr} (h : ∀ i ∈ is, i.stores = false) (s : State) :
    (exec is s).mem = s.mem :=
  exec_keeps (·.mem) (·.stores = false) (fun _ s hi => mem_exec1 hi s) h s

theorem thread_exec (is : List Instr) (s : State) : (exec is s).thread = s.thread :=
  exec_keeps (·.thread) (fun _ => True) (fun i s _ => thread_exec1 i s) (fun _ _ => trivial) s

/-- Whether an instruction writes only to cells at distances from `q` that are
not in `keep`. -/
def Instr.storesOutside (q : Reg) (keep : List Int) : Instr → Bool
  | .str _ r d | .strd _ r d => r = q && d ∉ keep
  | .stp _ _ r d => r = q && d ∉ keep && d + 8 ∉ keep
  | .stpq _ _ r d =>
      r = q && d ∉ keep && d + 8 ∉ keep && d + 16 ∉ keep && d + 24 ∉ keep
  | i => !i.stores

theorem mem_exec1_of_storesOutside {s : State} {i : Instr} {q : Reg} {keep : List Int}
    {blk d : Block} {o : Int} (hq : s.reg q = .ptr blk 0) (hi : i.storesOutside q keep = true)
    (h : d = blk → o ∈ keep) : (exec1 s i).mem (.ptr d o) = s.mem (.ptr d o) := by
  have hne : ∀ e, e ∉ keep → Word.ptr d o ≠ .ptr blk e := by
    rintro e he heq
    obtain ⟨hd, rfl⟩ := Word.ptr.inj heq
    exact he (h hd)
  cases i
  case str r p e | strd r p e =>
    simp only [Instr.storesOutside, Bool.and_eq_true, decide_eq_true_eq] at hi
    obtain ⟨rfl, he⟩ := hi
    simp [exec1, hq, Cells.set_apply, hne e he]
  case stp a b p e =>
    simp only [Instr.storesOutside, Bool.and_eq_true, decide_eq_true_eq] at hi
    obtain ⟨⟨rfl, he⟩, he'⟩ := hi
    simp [exec1, hq, Cells.set_apply, hne e he, hne (e + 8) he']
  case stpq a b p e =>
    simp only [Instr.storesOutside, Bool.and_eq_true, decide_eq_true_eq] at hi
    obtain ⟨⟨⟨⟨rfl, he⟩, he₁⟩, he₂⟩, he₃⟩ := hi
    simp [exec1, hq, Cells.set_apply, hne e he, hne (e + 8) he₁, hne (e + 16) he₂,
      hne (e + 24) he₃]
  all_goals
    first
      | simp [Instr.storesOutside, Instr.stores] at hi; done
      | exact congrFun (mem_exec1 rfl s) _

/-- Saves into a structure leave the rest of the memory alone. -/
theorem mem_exec_of_storesOutside {is : List Instr} {s : State} {q : Reg} {keep : List Int}
    {blk d : Block} {o : Int} (hq : s.reg q = .ptr blk 0) (hreg : ∀ i ∈ is, q ∉ i.regs)
    (his : ∀ i ∈ is, i.storesOutside q keep = true) (h : d = blk → o ∈ keep) :
    (exec is s).mem (.ptr d o) = s.mem (.ptr d o) := by
  induction is generalizing s with
  | nil => rfl
  | cons i is ih =>
      have hq' : (exec1 s i).reg q = .ptr blk 0 := by
        rw [reg_exec1 (hreg i List.mem_cons_self), hq]
      rw [exec_cons, ih hq' (fun j hj => hreg j (List.mem_cons_of_mem _ hj))
        fun j hj => his j (List.mem_cons_of_mem _ hj)]
      exact mem_exec1_of_storesOutside hq (his i List.mem_cons_self) h

end LfiRuntime.Arm64
