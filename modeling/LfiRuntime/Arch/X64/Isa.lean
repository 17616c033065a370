import LfiRuntime.Arch.Layout

/-!
The x86-64 instructions of the transition code, over 64-bit cells. Operands
are in the order of the source: `load d b r` is `movq d(b), r`.
-/

namespace LfiRuntime.X64

open LfiRuntime.BlockMemory
open LfiRuntime.Layout

inductive Reg
  | rax | rcx | rdx | rbx | rsp | rbp | rsi | rdi
  | r8 | r9 | r10 | r11 | r12 | r13 | r14 | r15
deriving DecidableEq, Repr

/-- The flags are those of the last operation that set them. -/
inductive Flags
  | logic (v : W)
  | add (a b : W)
  | sub (a b : W)
  | shift (a b : W)
  | host (n : Nat)
deriving DecidableEq, Repr

structure State where
  reg : Reg → W
  /-- The two 64-bit lanes of a vector register, low lane first. -/
  xmm : Fin 16 → W × W
  mem : Mem
  flags : Flags
  df : Bool
  fcw : W
  mxcsr : W
  gsBase : W
  pkru : W
  pc : W
  thread : Nat

namespace State

def setReg (s : State) (r : Reg) (v : W) : State :=
  { s with reg := fun q => if q = r then v else s.reg q }

def setXmm (s : State) (x : Fin 16) (v : W × W) : State :=
  { s with xmm := fun q => if q = x then v else s.xmm q }

def setMem (s : State) (a v : W) : State := { s with mem := s.mem.set a v }

def setFlags (s : State) (f : Flags) : State := { s with flags := f }

def setPc (s : State) (v : W) : State := { s with pc := v }

/-- The word that `d(b)` names. -/
def ea (s : State) (d : Int) (b : Reg) : W := (s.reg b).offset d

def push (s : State) (v : W) : State :=
  (s.setReg .rsp ((s.reg .rsp).offset (-8))).setMem ((s.reg .rsp).offset (-8)) v

/-- The word on top of the stack. -/
def top (s : State) : W := s.mem (s.reg .rsp)

def drop (s : State) : State := s.setReg .rsp ((s.reg .rsp).offset 8)

end State

inductive Instr
  | push (r : Reg)
  | pushImm (n : BitVec 64)
  | pushMem (d : Int) (b : Reg)
  | pop (r : Reg)
  | popMem (d : Int) (b : Reg)
  | mov (src dst : Reg)
  | movImm (n : BitVec 64) (dst : Reg)
  | load (d : Int) (b dst : Reg)
  | store (src : Reg) (d : Int) (b : Reg)
  | storeImm (n : BitVec 64) (d : Int) (b : Reg)
  | lea (d : Int) (b dst : Reg)
  | leaSite (t : Site) (dst : Reg)
  | xchg (d : Int) (b r : Reg)
  | cmpMemImm (n : BitVec 64) (d : Int) (b : Reg)
  | cmpMem (r : Reg) (d : Int) (b : Reg)
  | add (src dst : Reg)
  | addImm (n : Int) (dst : Reg)
  | subImm (n : Int) (dst : Reg)
  | andImm (n : BitVec 64) (dst : Reg)
  | andl (n : BitVec 32) (dst : Reg)
  | xor (r : Reg)
  | xorl (r : Reg)
  | shlCl (dst : Reg)
  | notl (dst : Reg)
  | leal (a b dst : Reg)
  | xorps (x : Fin 16)
  | movdquLoad (d : Int) (b : Reg) (x : Fin 16)
  | movdquStore (x : Fin 16) (d : Int) (b : Reg)
  | movqLoad (d : Int) (b : Reg) (x : Fin 16)
  | movqStore (x : Fin 16) (d : Int) (b : Reg)
  | fldcw (d : Int) (b : Reg)
  | fnstcw (d : Int) (b : Reg)
  | ldmxcsr (d : Int) (b : Reg)
  | cld
  | wrpkru
  | wrgsbase (r : Reg)
  | movFs (dst : Reg)
  | addFs (dst : Reg)
  | call (t : Site)
  | callReg (r : Reg) (t : Site)
  | ret
  | jmp (r : Reg)
deriving DecidableEq, Repr

/-- The 32-bit operations clear the upper half of their result. -/
def low32 (f : BitVec 32 → BitVec 32) (n : BitVec 64) : BitVec 64 :=
  (f (n.truncate 32)).zeroExtend 64

def exec1 (s : State) : Instr → State
  | .push r => s.push (s.reg r)
  | .pushImm n => s.push (.int n)
  | .pushMem d b => s.push (s.mem (s.ea d b))
  | .pop r => s.drop.setReg r s.top
  | .popMem d b => s.drop.setMem (s.drop.ea d b) s.top
  | .mov src dst => s.setReg dst (s.reg src)
  | .movImm n dst => s.setReg dst (.int n)
  | .load d b dst => s.setReg dst (s.mem (s.ea d b))
  | .store src d b => s.setMem (s.ea d b) (s.reg src)
  | .storeImm n d b => s.setMem (s.ea d b) (.int n)
  | .lea d b dst => s.setReg dst (s.ea d b)
  | .leaSite t dst => s.setReg dst (.ptr (.text t) 0)
  | .xchg d b r => (s.setMem (s.ea d b) (s.reg r)).setReg r (s.mem (s.ea d b))
  | .cmpMemImm n d b => s.setFlags (.sub (s.mem (s.ea d b)) (.int n))
  | .cmpMem r d b => s.setFlags (.sub (s.mem (s.ea d b)) (s.reg r))
  | .add src dst =>
      (s.setReg dst ((s.reg src).add (s.reg dst))).setFlags (.add (s.reg src) (s.reg dst))
  | .addImm n dst =>
      (s.setReg dst ((s.reg dst).offset n)).setFlags
        (.add (.int (BitVec.ofInt 64 n)) (s.reg dst))
  | .subImm n dst =>
      (s.setReg dst ((s.reg dst).offset (-n))).setFlags
        (.sub (s.reg dst) (.int (BitVec.ofInt 64 n)))
  | .andImm n dst =>
      let v := (s.reg dst).map (· &&& n)
      (s.setReg dst v).setFlags (.logic v)
  | .andl n dst =>
      let v := (s.reg dst).map (low32 (· &&& n))
      (s.setReg dst v).setFlags (.logic v)
  | .xor r => (s.setReg r (.int 0)).setFlags (.logic (.int 0))
  | .xorl r => (s.setReg r (.int 0)).setFlags (.logic (.int 0))
  | .shlCl dst =>
      let v := (s.reg .rcx).map₂ (fun c n => low32 (· <<< (c.toNat % 32)) n) (s.reg dst)
      (s.setReg dst v).setFlags (.shift (s.reg dst) (s.reg .rcx))
  | .notl dst => s.setReg dst ((s.reg dst).map (low32 (~~~·)))
  | .leal a b dst =>
      s.setReg dst ((s.reg a).map₂ (fun x y => low32 (· + y.truncate 32) x) (s.reg b))
  | .xorps x => s.setXmm x (.int 0, .int 0)
  | .movdquLoad d b x => s.setXmm x (s.mem (s.ea d b), s.mem (s.ea (d + 8) b))
  | .movdquStore x d b =>
      (s.setMem (s.ea d b) (s.xmm x).1).setMem (s.ea (d + 8) b) (s.xmm x).2
  | .movqLoad d b x => s.setXmm x (s.mem (s.ea d b), .int 0)
  | .movqStore x d b => s.setMem (s.ea d b) (s.xmm x).1
  | .fldcw d b => { s with fcw := s.mem (s.ea d b) }
  | .fnstcw d b => s.setMem (s.ea d b) s.fcw
  | .ldmxcsr d b => { s with mxcsr := s.mem (s.ea d b) }
  | .cld => { s with df := false }
  | .wrpkru => { s with pkru := s.reg .rax }
  | .wrgsbase r => { s with gsBase := s.reg r }
  | .movFs dst => s.setReg dst (.ptr (.tls s.thread) 0)
  | .addFs dst =>
      (s.setReg dst ((s.reg dst).add (.ptr (.tls s.thread) 0))).setFlags
        (.add (.ptr (.tls s.thread) 0) (s.reg dst))
  | .call t => (s.push (.ptr (.after t) 0)).setPc (.ptr (.text t) 0)
  | .callReg r t => (s.push (.ptr (.after t) 0)).setPc (s.reg r)
  | .ret => s.drop.setPc s.top
  | .jmp r => s.setPc (s.reg r)

def exec (is : List Instr) (s : State) : State := is.foldl exec1 s

@[simp] theorem exec_nil (s : State) : exec [] s = s := rfl

@[simp] theorem exec_cons (i : Instr) (is : List Instr) (s : State) :
    exec (i :: is) s = exec is (exec1 s i) := rfl

theorem exec_append (is js : List Instr) (s : State) :
    exec (is ++ js) s = exec js (exec is s) := List.foldl_append

/-- The zero flag. -/
def Flags.zf : Flags → Bool
  | .logic v => v = .int 0
  | .add a b => a.add b = .int 0
  | .sub a b => a = b
  | .shift _ _ => false
  | .host n => n % 2 = 1

/-- The registers a C function keeps for its caller. -/
def calleeSaved : List Reg := [.rbx, .rbp, .r12, .r13, .r14, .r15]

/-- A C function entered in `s`, with its return address on top of the stack,
may return in `t`. -/
structure CReturn (s t : State) : Prop where
  rsp : t.reg .rsp = (s.reg .rsp).offset 8
  saved : ∀ r ∈ calleeSaved, t.reg r = s.reg r
  stack : ∀ k, s.reg .rsp = .ptr (.stack s.thread) k → ∀ o, k + 8 ≤ o →
    t.mem (.ptr (.stack s.thread) o) = s.mem (.ptr (.stack s.thread) o)
  pc : t.pc = s.top
  df : s.df = false → t.df = false
  thread : t.thread = s.thread

/-- A C function that returns. -/
structure HostFn where
  run : State → State
  returns : ∀ s, CReturn s (run s)

namespace State

variable (s : State) (r q : Reg) (x y : Fin 16) (a v : W) (l : W × W) (f : Flags)

@[simp] theorem reg_setReg : (s.setReg r v).reg q = if q = r then v else s.reg q := rfl
@[simp] theorem xmm_setReg : (s.setReg r v).xmm = s.xmm := rfl
@[simp] theorem mem_setReg : (s.setReg r v).mem = s.mem := rfl
@[simp] theorem flags_setReg : (s.setReg r v).flags = s.flags := rfl
@[simp] theorem df_setReg : (s.setReg r v).df = s.df := rfl
@[simp] theorem fcw_setReg : (s.setReg r v).fcw = s.fcw := rfl
@[simp] theorem mxcsr_setReg : (s.setReg r v).mxcsr = s.mxcsr := rfl
@[simp] theorem pc_setReg : (s.setReg r v).pc = s.pc := rfl
@[simp] theorem thread_setReg : (s.setReg r v).thread = s.thread := rfl

@[simp] theorem reg_setXmm : (s.setXmm x l).reg = s.reg := rfl
@[simp] theorem xmm_setXmm : (s.setXmm x l).xmm y = if y = x then l else s.xmm y := rfl
@[simp] theorem mem_setXmm : (s.setXmm x l).mem = s.mem := rfl
@[simp] theorem flags_setXmm : (s.setXmm x l).flags = s.flags := rfl
@[simp] theorem df_setXmm : (s.setXmm x l).df = s.df := rfl
@[simp] theorem fcw_setXmm : (s.setXmm x l).fcw = s.fcw := rfl
@[simp] theorem mxcsr_setXmm : (s.setXmm x l).mxcsr = s.mxcsr := rfl
@[simp] theorem pc_setXmm : (s.setXmm x l).pc = s.pc := rfl
@[simp] theorem thread_setXmm : (s.setXmm x l).thread = s.thread := rfl

@[simp] theorem reg_setMem : (s.setMem a v).reg = s.reg := rfl
@[simp] theorem xmm_setMem : (s.setMem a v).xmm = s.xmm := rfl
@[simp] theorem mem_setMem : (s.setMem a v).mem = s.mem.set a v := rfl
@[simp] theorem flags_setMem : (s.setMem a v).flags = s.flags := rfl
@[simp] theorem df_setMem : (s.setMem a v).df = s.df := rfl
@[simp] theorem fcw_setMem : (s.setMem a v).fcw = s.fcw := rfl
@[simp] theorem mxcsr_setMem : (s.setMem a v).mxcsr = s.mxcsr := rfl
@[simp] theorem pc_setMem : (s.setMem a v).pc = s.pc := rfl
@[simp] theorem thread_setMem : (s.setMem a v).thread = s.thread := rfl

@[simp] theorem reg_setFlags : (s.setFlags f).reg = s.reg := rfl
@[simp] theorem xmm_setFlags : (s.setFlags f).xmm = s.xmm := rfl
@[simp] theorem mem_setFlags : (s.setFlags f).mem = s.mem := rfl
@[simp] theorem flags_setFlags : (s.setFlags f).flags = f := rfl
@[simp] theorem df_setFlags : (s.setFlags f).df = s.df := rfl
@[simp] theorem fcw_setFlags : (s.setFlags f).fcw = s.fcw := rfl
@[simp] theorem mxcsr_setFlags : (s.setFlags f).mxcsr = s.mxcsr := rfl
@[simp] theorem pc_setFlags : (s.setFlags f).pc = s.pc := rfl
@[simp] theorem thread_setFlags : (s.setFlags f).thread = s.thread := rfl

@[simp] theorem reg_setPc : (s.setPc v).reg = s.reg := rfl
@[simp] theorem xmm_setPc : (s.setPc v).xmm = s.xmm := rfl
@[simp] theorem mem_setPc : (s.setPc v).mem = s.mem := rfl
@[simp] theorem flags_setPc : (s.setPc v).flags = s.flags := rfl
@[simp] theorem df_setPc : (s.setPc v).df = s.df := rfl
@[simp] theorem fcw_setPc : (s.setPc v).fcw = s.fcw := rfl
@[simp] theorem mxcsr_setPc : (s.setPc v).mxcsr = s.mxcsr := rfl
@[simp] theorem pc_setPc : (s.setPc v).pc = v := rfl
@[simp] theorem thread_setPc : (s.setPc v).thread = s.thread := rfl

end State

/-- The registers an instruction may change. -/
def Instr.regs : Instr → List Reg
  | .push _ | .pushImm _ | .pushMem _ _ | .popMem _ _ | .call _ | .callReg _ _ | .ret => [.rsp]
  | .pop r => [.rsp, r]
  | .mov _ dst | .movImm _ dst | .load _ _ dst | .lea _ _ dst | .leaSite _ dst => [dst]
  | .xchg _ _ r => [r]
  | .add _ dst | .addImm _ dst | .subImm _ dst | .andImm _ dst | .andl _ dst => [dst]
  | .xor r | .xorl r => [r]
  | .shlCl dst | .notl dst | .leal _ _ dst | .movFs dst | .addFs dst => [dst]
  | .store _ _ _ | .storeImm _ _ _ | .cmpMemImm _ _ _ | .cmpMem _ _ _ | .xorps _ => []
  | .movdquLoad _ _ _ | .movdquStore _ _ _ | .movqLoad _ _ _ | .movqStore _ _ _ => []
  | .fldcw _ _ | .fnstcw _ _ | .ldmxcsr _ _ | .cld | .wrpkru | .wrgsbase _ | .jmp _ => []

def Instr.xmms : Instr → List (Fin 16)
  | .xorps x | .movdquLoad _ _ x | .movqLoad _ _ x => [x]
  | _ => []

/-- Whether an instruction writes to memory. -/
def Instr.stores : Instr → Bool
  | .push _ | .pushImm _ | .pushMem _ _ | .popMem _ _ | .call _ | .callReg _ _ => true
  | .store _ _ _ | .storeImm _ _ _ | .xchg _ _ _ => true
  | .movdquStore _ _ _ | .movqStore _ _ _ | .fnstcw _ _ => true
  | _ => false

variable {s : State}

theorem exec_keeps {α : Type} (f : State → α) (P : Instr → Prop)
    (h : ∀ i s, P i → f (exec1 s i) = f s) {is : List Instr} (his : ∀ i ∈ is, P i) (s : State) :
    f (exec is s) = f s := by
  induction is generalizing s with
  | nil => rfl
  | cons i is ih =>
      rw [exec_cons, ih (fun j hj => his j (List.mem_cons_of_mem _ hj)), h i s]
      exact his i List.mem_cons_self

theorem reg_exec1 {i : Instr} {r : Reg} (h : r ∉ i.regs) (s : State) :
    (exec1 s i).reg r = s.reg r := by
  cases i
  all_goals
    simp only [Instr.regs, List.mem_cons, List.not_mem_nil, or_false, not_or] at h
    simp [exec1, State.push, State.drop, h]

theorem xmm_exec1 {i : Instr} {x : Fin 16} (h : x ∉ i.xmms) (s : State) :
    (exec1 s i).xmm x = s.xmm x := by
  cases i
  all_goals
    simp only [Instr.xmms, List.mem_cons, List.not_mem_nil, or_false] at h
    simp [exec1, State.push, State.drop, h]

theorem mem_exec1 {i : Instr} (h : i.stores = false) (s : State) :
    (exec1 s i).mem = s.mem := by
  cases i
  all_goals first
    | rfl
    | cases h

theorem thread_exec1 (i : Instr) (s : State) : (exec1 s i).thread = s.thread := by
  cases i <;> rfl

/-- Registers that no instruction changes. -/
theorem reg_exec {is : List Instr} {r : Reg} (h : ∀ i ∈ is, r ∉ i.regs) (s : State) :
    (exec is s).reg r = s.reg r :=
  exec_keeps (·.reg r) (r ∉ ·.regs) (fun _ s hi => reg_exec1 hi s) h s

theorem xmm_exec {is : List Instr} {x : Fin 16} (h : ∀ i ∈ is, x ∉ i.xmms) (s : State) :
    (exec is s).xmm x = s.xmm x :=
  exec_keeps (·.xmm x) (x ∉ ·.xmms) (fun _ s hi => xmm_exec1 hi s) h s

theorem mem_exec {is : List Instr} (h : ∀ i ∈ is, i.stores = false) (s : State) :
    (exec is s).mem = s.mem :=
  exec_keeps (·.mem) (·.stores = false) (fun _ s hi => mem_exec1 hi s) h s

theorem thread_exec (is : List Instr) (s : State) : (exec is s).thread = s.thread :=
  exec_keeps (·.thread) (fun _ => True) (fun i s _ => thread_exec1 i s) (fun _ _ => trivial) s

/-- Whether an instruction writes only to cells at distances from `q` that are
not in `keep`. -/
def Instr.storesOutside (q : Reg) (keep : List Int) : Instr → Bool
  | .store _ d r | .storeImm _ d r | .movqStore _ d r | .fnstcw d r => r = q && d ∉ keep
  | .movdquStore _ d r => r = q && d ∉ keep && d + 8 ∉ keep
  | i => !i.stores

theorem mem_exec1_of_storesOutside {i : Instr} {q : Reg} {keep : List Int} {blk d : Block} {o : Int}
    (hq : s.reg q = .ptr blk 0) (hi : i.storesOutside q keep = true) (h : d = blk → o ∈ keep) :
    (exec1 s i).mem (.ptr d o) = s.mem (.ptr d o) := by
  have hne : ∀ e, e ∉ keep → Word.ptr d o ≠ .ptr blk e := by
    rintro e he heq
    obtain ⟨hd, rfl⟩ := Word.ptr.inj heq
    exact he (h hd)
  cases i
  case store r e p | storeImm r e p | movqStore r e p =>
    simp only [Instr.storesOutside, Bool.and_eq_true, decide_eq_true_eq] at hi
    obtain ⟨rfl, he⟩ := hi
    simp [exec1, State.ea, hq, Cells.set_apply, hne e he]
  case fnstcw e p =>
    simp only [Instr.storesOutside, Bool.and_eq_true, decide_eq_true_eq] at hi
    obtain ⟨rfl, he⟩ := hi
    simp [exec1, State.ea, hq, Cells.set_apply, hne e he]
  case movdquStore r e p =>
    simp only [Instr.storesOutside, Bool.and_eq_true, decide_eq_true_eq] at hi
    obtain ⟨⟨rfl, he⟩, he'⟩ := hi
    simp [exec1, State.ea, hq, Cells.set_apply, hne e he, hne (e + 8) he']
  all_goals
    first
      | simp [Instr.storesOutside, Instr.stores] at hi; done
      | exact congrFun (mem_exec1 rfl s) _

/-- Saves into a structure leave the rest of the memory alone. -/
theorem mem_exec_of_storesOutside {is : List Instr} {q : Reg} {keep : List Int} {blk d : Block}
    {o : Int} (hq : s.reg q = .ptr blk 0) (hreg : ∀ i ∈ is, q ∉ i.regs)
    (his : ∀ i ∈ is, i.storesOutside q keep = true) (h : d = blk → o ∈ keep) :
    (exec is s).mem (.ptr d o) = s.mem (.ptr d o) := by
  induction is generalizing s with
  | nil => rfl
  | cons i is ih =>
      have hq' : (exec1 s i).reg q = .ptr blk 0 := by
        rw [reg_exec1 (hreg i List.mem_cons_self), hq]
      rw [exec_cons, ih hq' (fun j hj => hreg j (List.mem_cons_of_mem _ hj))
        fun j hj => his j (List.mem_cons_of_mem _ hj)]
      exact mem_exec1_of_storesOutside hq (his i List.mem_cons_self) h

end LfiRuntime.X64
