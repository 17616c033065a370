import LfiRuntime.Lib.Moves
import LfiRuntime.Arch.Arm64.Isa

/-!
Instructions that move values between the registers and one structure in
memory, as moves between places.
-/

namespace LfiRuntime.Arm64

open LfiRuntime.BlockMemory
open LfiRuntime.Layout
open LfiRuntime.Moves

/-- The registers, and the cells of a structure. -/
inductive Place
  | x (n : Fin 31)
  | sp
  | lo (i : Fin 32)
  | hi (i : Fin 32)
  | fpsr
  | cell (o : Int)
deriving DecidableEq, Repr

def State.val (s : State) (blk : Block) : Place → W
  | .x n => s.x n
  | .sp => s.sp
  | .lo i => (s.v i).1
  | .hi i => (s.v i).2
  | .fpsr => s.fpsr
  | .cell o => s.mem (.ptr blk o)

def Reg.source : Reg → Source Place W
  | .x n => .place (.x n)
  | .sp => .place .sp
  | .xzr => .const (.int 0)

def Reg.move (src : Source Place W) : Reg → List (Move Place W)
  | .x n => [⟨.x n, src⟩]
  | .sp => [⟨.sp, src⟩]
  | .xzr => []

/-- The moves of an instruction that reaches the structure through `q`. -/
def Instr.moves (q : Reg) : Instr → Option (List (Move Place W))
  | .mov dst src => some (dst.move src.source)
  | .movImm dst n => some (dst.move (.const (.int n)))
  | .ldr r p d => if p = q then some (r.move (.place (.cell d))) else none
  | .str r p d => if p = q then some [⟨.cell d, r.source⟩] else none
  | .ldp a b p d =>
      if p = q then some (a.move (.place (.cell d)) ++ b.move (.place (.cell (d + 8)))) else none
  | .stp a b p d =>
      if p = q then some [⟨.cell d, a.source⟩, ⟨.cell (d + 8), b.source⟩] else none
  | .ldrd a p d =>
      if p = q then some [⟨.lo a, .place (.cell d)⟩, ⟨.hi a, .const (.int 0)⟩] else none
  | .strd a p d => if p = q then some [⟨.cell d, .place (.lo a)⟩] else none
  | .ldpq a b p d =>
      if p = q then some [⟨.lo a, .place (.cell d)⟩, ⟨.hi a, .place (.cell (d + 8))⟩,
        ⟨.lo b, .place (.cell (d + 16))⟩, ⟨.hi b, .place (.cell (d + 24))⟩] else none
  | .stpq a b p d =>
      if p = q then some [⟨.cell d, .place (.lo a)⟩, ⟨.cell (d + 8), .place (.hi a)⟩,
        ⟨.cell (d + 16), .place (.lo b)⟩, ⟨.cell (d + 24), .place (.hi b)⟩] else none
  | .movi a => some [⟨.lo a, .const (.int 0)⟩, ⟨.hi a, .const (.int 0)⟩]
  | .movHigh a => some [⟨.hi a, .const (.int 0)⟩]
  | .msrFpsr => some [⟨.fpsr, .const (.int 0)⟩]
  | .ands | .br _ | .ret => some []
  | _ => none

/-- The moves of a list of instructions, of which the last may overwrite `q`. -/
def moves (q : Reg) : List Instr → Option (List (Move Place W))
  | [] => some []
  | i :: is =>
      if is = [] ∨ q ∉ i.regs then
        (i.moves q).bind fun ms => (moves q is).map (ms ++ ·)
      else none

/-- Where the value that the instructions leave at `p` comes from. -/
def originOf (q : Reg) (is : List Instr) (p : Place) : Option (Source Place W) :=
  (moves q is).map (origin · p)

variable {s : State} {q : Reg} {blk : Block}

@[simp] theorem eval_source (r : Reg) : r.source.eval (s.val blk) = s.reg r := by
  cases r <;> rfl

theorem val_setReg (r : Reg) (src : Source Place W) :
    (s.setReg r (src.eval (s.val blk))).val blk = run (r.move src) (s.val blk) := by
  funext p
  cases r with
  | xzr => rfl
  | sp => cases p <;> rfl
  | x n =>
      cases p <;>
        simp [State.val, State.setReg, Reg.move, run, Move.run, Function.update_apply]

theorem val_setMem (o : Int) (r : Reg) :
    (s.setMem (.ptr blk o) (s.reg r)).val blk = run [⟨.cell o, r.source⟩] (s.val blk) := by
  change _ = Move.run ⟨.cell o, r.source⟩ (s.val blk)
  funext p
  rw [Move.run, eval_source]
  cases p <;>
    simp [State.val, Function.update_apply, Cells.set_apply]

theorem val_exec1 (hq : s.reg q = .ptr blk 0) {i : Instr} {ms : List (Move Place W)}
    (h : i.moves q = some ms) : (exec1 s i).val blk = run ms (s.val blk) := by
  cases i
  all_goals
    simp only [Instr.moves, reduceCtorEq, Option.some.injEq, Option.ite_none_right_eq_some] at h
  case mov dst src =>
    subst h
    rw [← val_setReg, eval_source]
    rfl
  case movImm dst n =>
    subst h
    exact val_setReg dst (.const (.int n))
  case ldr r p d =>
    obtain ⟨rfl, rfl⟩ := h
    rw [← val_setReg]
    simp [exec1, hq, Source.eval, State.val]
  case ldp a b p d =>
    obtain ⟨rfl, rfl⟩ := h
    rw [run_append, ← val_setReg, ← val_setReg]
    simp [exec1, hq, Source.eval, State.val]
  case str r p d =>
    obtain ⟨rfl, rfl⟩ := h
    rw [← val_setMem]
    simp [exec1, hq]
  case stp a b p d =>
    obtain ⟨rfl, rfl⟩ := h
    rw [← List.singleton_append, run_append, ← val_setMem, ← val_setMem]
    simp [exec1, hq]
  all_goals
    funext p
  case ldrd | strd | ldpq | stpq =>
    obtain ⟨rfl, rfl⟩ := h
    cases p <;>
      simp [exec1, hq, run, Move.run, Source.eval, Function.update_apply, State.val,
        Cells.set_apply, apply_ite Prod.fst, apply_ite Prod.snd]
  case movHigh i =>
    subst h
    cases p with
    | lo j =>
        rcases eq_or_ne j i with rfl | hne
        · simp [exec1, run, Move.run, Source.eval, State.val]
        · simp [exec1, run, Move.run, Source.eval, State.val, hne]
    | _ =>
        simp [exec1, run, Move.run, Source.eval, Function.update_apply, State.val,
          apply_ite Prod.snd]
  all_goals
    subst h
    cases p <;>
      simp [exec1, run, Move.run, Source.eval, Function.update_apply, State.val,
        apply_ite Prod.fst, apply_ite Prod.snd]

theorem val_exec_moves {is : List Instr} {ms : List (Move Place W)} (hq : s.reg q = .ptr blk 0)
    (h : moves q is = some ms) : (exec is s).val blk = run ms (s.val blk) := by
  induction is generalizing s ms with
  | nil =>
      obtain rfl : [] = ms := Option.some.inj h
      rfl
  | cons i is ih =>
      rw [moves, Option.ite_none_right_eq_some] at h
      obtain ⟨hlast, h⟩ := h
      obtain ⟨ms₁, h₁, h⟩ := Option.bind_eq_some_iff.mp h
      obtain ⟨ms₂, h₂, rfl⟩ := Option.map_eq_some_iff.mp h
      rw [exec_cons, run_append, ← val_exec1 hq h₁]
      rcases hlast with rfl | hreg
      · obtain rfl : [] = ms₂ := Option.some.inj h₂
        rfl
      · exact ih ((reg_exec1 hreg s).trans hq) h₂

theorem val_exec {is : List Instr} {p : Place} {c : Source Place W}
    (hq : s.reg q = .ptr blk 0) (h : originOf q is p = some c) :
    (exec is s).val blk p = c.eval (s.val blk) := by
  obtain ⟨ms, hms, rfl⟩ := Option.map_eq_some_iff.mp h
  rw [val_exec_moves hq hms, run_apply]

end LfiRuntime.Arm64
