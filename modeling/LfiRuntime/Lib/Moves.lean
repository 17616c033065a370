import Mathlib.Logic.Function.Basic

/-!
Straight-line code that moves values between places, such as the saves and the
loads of a context switch. Where the value of a place comes from is computed
from the end of the code backwards.
-/

namespace LfiRuntime.Moves

inductive Source (P V : Type)
  | place (p : P)
  | const (v : V)
deriving DecidableEq, Repr

structure Move (P V : Type) where
  dst : P
  src : Source P V

variable {P V : Type}

def Source.eval (σ : P → V) : Source P V → V
  | .place p => σ p
  | .const v => v

/-- The source reads at most the places of `L`. -/
def Source.Within (L : P → Prop) : Source P V → Prop
  | .place p => L p
  | .const _ => True

instance (L : P → Prop) [DecidablePred L] (src : Source P V) : Decidable (src.Within L) :=
  match src with
  | .place p => inferInstanceAs (Decidable (L p))
  | .const _ => inferInstanceAs (Decidable True)

theorem Source.eval_congr {L : P → Prop} {σ τ : P → V} (h : ∀ p, L p → σ p = τ p)
    {src : Source P V} (hsrc : src.Within L) : src.eval σ = src.eval τ := by
  cases src with
  | place p => exact h p hsrc
  | const v => rfl

variable [DecidableEq P]

def Move.run (m : Move P V) (σ : P → V) : P → V := Function.update σ m.dst (m.src.eval σ)

def run (ms : List (Move P V)) (σ : P → V) : P → V := ms.foldl (fun σ m => m.run σ) σ

/-- Where a source was before a move. -/
def Move.before (m : Move P V) : Source P V → Source P V
  | .place p => if p = m.dst then m.src else .place p
  | .const v => .const v

/-- Where the value that the moves leave at `p` comes from. -/
def origin : List (Move P V) → P → Source P V
  | [], p => .place p
  | m :: ms, p => m.before (origin ms p)

theorem run_append (ms ns : List (Move P V)) (σ : P → V) :
    run (ms ++ ns) σ = run ns (run ms σ) := List.foldl_append

theorem Move.eval_before (m : Move P V) (src : Source P V) (σ : P → V) :
    (m.before src).eval σ = src.eval (m.run σ) := by
  cases src with
  | const v => rfl
  | place p =>
      rcases eq_or_ne p m.dst with rfl | hne
      · simp [Move.before, Move.run, Source.eval]
      · simp [Move.before, Move.run, Source.eval, hne]

theorem run_apply (ms : List (Move P V)) (σ : P → V) (p : P) :
    run ms σ p = (origin ms p).eval σ := by
  induction ms generalizing σ with
  | nil => rfl
  | cons m ms ih =>
      change run ms (m.run σ) p = (m.before (origin ms p)).eval σ
      rw [ih, Move.eval_before]

end LfiRuntime.Moves
