import Mathlib.Data.BitVec
import Mathlib.Tactic

/-!
Machine words over a memory of separate blocks. A word is a number, a position
in a block or a signed pointer; cells of 64 bits are named by the word that
points at them, and numbers name the cells of a flat space of their own.
-/

namespace LfiRuntime.BlockMemory

variable {β : Type}

inductive Word (β : Type)
  | int (n : BitVec 64)
  | ptr (block : β) (off : Int)
  | signed (pointer modifier : Word β)
  | undef
deriving DecidableEq, Repr

namespace Word

/-- A word at a distance: pointer arithmetic by a constant. -/
def offset : Word β → Int → Word β
  | int n, d => int (n + BitVec.ofInt 64 d)
  | ptr b o, d => ptr b (o + d)
  | signed _ _, _ => undef
  | undef, _ => undef

@[simp] theorem offset_ptr (b : β) (o d : Int) : (ptr b o).offset d = ptr b (o + d) := rfl

@[simp] theorem offset_int (n : BitVec 64) (d : Int) :
    (int n : Word β).offset d = int (n + BitVec.ofInt 64 d) := rfl

/-- An operation on numbers; on anything else it has no meaning. -/
def map (f : BitVec 64 → BitVec 64) : Word β → Word β
  | int n => int (f n)
  | _ => undef

def map₂ (f : BitVec 64 → BitVec 64 → BitVec 64) : Word β → Word β → Word β
  | int n, int k => int (f n k)
  | _, _ => undef

/-- Addition, of two numbers or of a number to a pointer. -/
def add : Word β → Word β → Word β
  | int n, w => w.offset n.toInt
  | w, int n => w.offset n.toInt
  | _, _ => undef

end Word

/-- A memory of 64-bit cells. -/
abbrev Cells (β : Type) : Type := Word β → Word β

namespace Cells

variable [DecidableEq β] (m : Cells β)

def set (a v : Word β) : Cells β := fun x => if x = a then v else m x

theorem set_apply (a v x : Word β) : m.set a v x = if x = a then v else m x := rfl

@[simp] theorem set_self (a v : Word β) : m.set a v a = v := by
  rw [set_apply, if_pos rfl]

theorem set_of_ne {a v x : Word β} (h : x ≠ a) : m.set a v x = m x := by
  rw [set_apply, if_neg h]

/-- The cells from `a` on hold the words of a list. -/
def Holds (m : Cells β) : Word β → List (Word β) → Prop
  | _, [] => True
  | a, w :: ws => m a = w ∧ Holds m (a.offset 8) ws

omit [DecidableEq β] in
theorem Holds.congr {m m' : Cells β} {b : β} {o : Int} {ws : List (Word β)}
    (h : m.Holds (.ptr b o) ws) (heq : ∀ i, o ≤ i → m' (.ptr b i) = m (.ptr b i)) :
    m'.Holds (.ptr b o) ws := by
  induction ws generalizing o with
  | nil => exact trivial
  | cons w ws ih =>
      obtain ⟨hhead, htail⟩ := h
      refine ⟨(heq o (le_refl o)).trans hhead, ih htail ?_⟩
      intro i hi
      exact heq i (by omega)

end Cells

end LfiRuntime.BlockMemory
