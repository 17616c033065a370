import LfiRuntime.Lib.Moves
import LfiRuntime.Arch.X64.Isa

/-!
Instructions that move values between the registers and one structure in
memory, as moves between places.
-/

namespace LfiRuntime.X64

open LfiRuntime.BlockMemory
open LfiRuntime.Layout
open LfiRuntime.Moves

/-- The registers, and the cells of a structure. -/
inductive Place
  | reg (r : Reg)
  | lo (x : Fin 16)
  | hi (x : Fin 16)
  | fcw
  | mxcsr
  | cell (o : Int)
deriving DecidableEq, Repr

def State.val (s : State) (blk : Block) : Place → W
  | .reg r => s.reg r
  | .lo x => (s.xmm x).1
  | .hi x => (s.xmm x).2
  | .fcw => s.fcw
  | .mxcsr => s.mxcsr
  | .cell o => s.mem (.ptr blk o)

/-- The moves of an instruction that reaches the structure through `q`. -/
def Instr.moves (q : Reg) : Instr → Option (List (Move Place W))
  | .mov src dst => some [⟨.reg dst, .place (.reg src)⟩]
  | .movImm n dst => some [⟨.reg dst, .const (.int n)⟩]
  | .xor r | .xorl r => some [⟨.reg r, .const (.int 0)⟩]
  | .load d p dst => if p = q then some [⟨.reg dst, .place (.cell d)⟩] else none
  | .store src d p => if p = q then some [⟨.cell d, .place (.reg src)⟩] else none
  | .xorps x => some [⟨.lo x, .const (.int 0)⟩, ⟨.hi x, .const (.int 0)⟩]
  | .movdquLoad d p x =>
      if p = q then some [⟨.lo x, .place (.cell d)⟩, ⟨.hi x, .place (.cell (d + 8))⟩] else none
  | .movqLoad d p x =>
      if p = q then some [⟨.lo x, .place (.cell d)⟩, ⟨.hi x, .const (.int 0)⟩] else none
  | .movqStore x d p => if p = q then some [⟨.cell d, .place (.lo x)⟩] else none
  | .fldcw d p => if p = q then some [⟨.fcw, .place (.cell d)⟩] else none
  | .fnstcw d p => if p = q then some [⟨.cell d, .place .fcw⟩] else none
  | .ldmxcsr d p => if p = q then some [⟨.mxcsr, .place (.cell d)⟩] else none
  | .cld | .wrpkru | .jmp _ => some []
  | _ => none

/-- The moves of a list of instructions, of which the last may overwrite `q`. -/
def moves (q : Reg) : List Instr → Option (List (Move Place W))
  | [] => some []
  | i :: is =>
      if is = [] ∨ q ∉ i.regs then
        (i.moves q).bind fun ms => (moves q is).map (ms ++ ·)
      else none

/-- Where the value that the instructions leave at `p` comes from. -/
def originOf (q : Reg) (is : List Instr) (p : Place) : Option (Source Place W) :=
  (moves q is).map (origin · p)

/-- It is a constant or comes from one of the places `L`. -/
def From (L : Place → Prop) [DecidablePred L] (q : Reg) (is : List Instr) (p : Place) : Prop :=
  (originOf q is p).any fun src => src.Within L

instance (L : Place → Prop) [DecidablePred L] (q : Reg) (is : List Instr) (p : Place) :
    Decidable (From L q is p) :=
  inferInstanceAs (Decidable (_ = true))

variable {s : State} {q : Reg} {blk : Block}

theorem val_exec1 (hq : s.reg q = .ptr blk 0) {i : Instr} {ms : List (Move Place W)}
    (h : i.moves q = some ms) : (exec1 s i).val blk = run ms (s.val blk) := by
  funext p
  cases i
  all_goals
    simp only [Instr.moves, reduceCtorEq, Option.some.injEq, Option.ite_none_right_eq_some] at h
  case load | store | movdquLoad | movqLoad | movqStore | fldcw | fnstcw | ldmxcsr =>
    obtain ⟨rfl, rfl⟩ := h
    cases p <;>
      simp [exec1, State.val, State.ea, hq, run, Move.run, Source.eval, Function.update_apply,
        Cells.set_apply, apply_ite Prod.fst, apply_ite Prod.snd]
  all_goals
    subst h
    cases p <;>
      simp [exec1, State.val, run, Move.run, Source.eval, Function.update_apply, apply_ite Prod.fst,
        apply_ite Prod.snd]

theorem val_exec_moves {is : List Instr} {ms : List (Move Place W)} (hq : s.reg q = .ptr blk 0)
    (h : moves q is = some ms) : (exec is s).val blk = run ms (s.val blk) := by
  induction is generalizing s ms with
  | nil =>
      obtain rfl : [] = ms := Option.some.inj h
      rfl
  | cons i is ih =>
      rw [moves, Option.ite_none_right_eq_some] at h
      obtain ⟨hlast, h⟩ := h
      obtain ⟨ms₁, h₁, h⟩ := Option.bind_eq_some_iff.mp h
      obtain ⟨ms₂, h₂, rfl⟩ := Option.map_eq_some_iff.mp h
      rw [exec_cons, run_append, ← val_exec1 hq h₁]
      rcases hlast with rfl | hreg
      · obtain rfl : [] = ms₂ := Option.some.inj h₂
        rfl
      · exact ih ((reg_exec1 hreg s).trans hq) h₂

theorem val_exec {is : List Instr} {p : Place} {c : Source Place W}
    (hq : s.reg q = .ptr blk 0) (h : originOf q is p = some c) :
    (exec is s).val blk p = c.eval (s.val blk) := by
  obtain ⟨ms, hms, rfl⟩ := Option.map_eq_some_iff.mp h
  rw [val_exec_moves hq hms, run_apply]

/-- Two runs of the same code, from states that agree on what it uses. -/
theorem val_congr {t : State} {L : Place → Prop} [DecidablePred L] {is : List Instr} {p : Place}
    (hs : s.reg q = .ptr blk 0) (ht : t.reg q = .ptr blk 0) (hp : From L q is p)
    (h : ∀ p, L p → t.val blk p = s.val blk p) :
    (exec is t).val blk p = (exec is s).val blk p := by
  rw [From] at hp
  cases hsrc : originOf q is p with
  | none => simp [hsrc] at hp
  | some src =>
      have hwithin : src.Within L := by simpa [hsrc] using hp
      rw [val_exec hs hsrc, val_exec ht hsrc]
      exact Source.eval_congr h hwithin

end LfiRuntime.X64
