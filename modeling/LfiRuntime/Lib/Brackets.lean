import LfiRuntime.Lib.Runs
import Mathlib.Data.List.Infix

/-!
A register that is saved on a stack. A step pushes its value, leaves the stack
alone, or takes values off and puts the last of them back. Between a push and
the step that takes it off again, the register may have any value.
-/

namespace LfiRuntime.Brackets

open LfiRuntime.Runs

universe u v w

variable {σ : Type u} {ℓ : Type v} {ρ : Type w}

/-- The steps of a system whose register is `reg` and whose stack is `saved`. -/
def Saves (step : σ → ℓ → σ → Prop) (reg : σ → ρ) (saved : σ → List ρ) : Prop :=
  ∀ s l t, step s l t → saved t = reg s :: saved s ∨ saved t = saved s ∨
    ∃ above, saved s = above ++ reg t :: saved t

/-- A run that stays above the depth `n`. -/
def Above (step : σ → ℓ → σ → Prop) (ok : σ → ℓ → Prop) (saved : σ → List ρ) (n : Nat) :
    σ → σ → Prop :=
  Relation.ReflTransGen fun s t => StepIn step ok s t ∧ n < (saved t).length

/-- A step that pushes, a run above it, and the step that takes the push off. -/
def Bracket (step : σ → ℓ → σ → Prop) (ok : σ → ℓ → Prop) (saved : σ → List ρ) (s t : σ) :
    Prop :=
  ∃ s₁ s₂, StepIn step ok s s₁ ∧ (saved s).length < (saved s₁).length ∧
    Above step ok saved (saved s).length s₁ s₂ ∧ StepIn step ok s₂ t ∧
    (saved t).length = (saved s).length

variable {step : σ → ℓ → σ → Prop} {ok : σ → ℓ → Prop} {reg : σ → ρ} {saved : σ → List ρ}
  {s t : σ}

theorem Saves.pushed {l : ℓ} (h : Saves step reg saved) (hstep : step s l t)
    (hlt : (saved s).length < (saved t).length) : saved t = reg s :: saved s := by
  rcases h s l t hstep with hpush | hsame | ⟨above, hpop⟩
  · exact hpush
  · rw [hsame] at hlt
    omega
  · have hlen := congrArg List.length hpop
    simp only [List.length_append, List.length_cons] at hlen
    omega

/-- What is on the stack up to a depth stays while the run is above that depth. -/
theorem Saves.suffix {xs : List ρ} (h : Saves step reg saved)
    (hrun : Above step ok saved xs.length s t) (x : ρ) (hs : x :: xs <:+ saved s) :
    x :: xs <:+ saved t := by
  induction hrun with
  | refl => exact hs
  | @tail u t _ hstep ih =>
      obtain ⟨⟨l, -, hstep⟩, hdeep⟩ := hstep
      rcases h u l t hstep with hpush | hsame | ⟨above, hpop⟩
      · rw [hpush]
        exact ih.trans (List.suffix_cons _ _)
      · rw [hsame]
        exact ih
      · rw [hpop] at ih
        have hrest := (List.suffix_cons (reg t) (saved t)).trans (List.suffix_append above _)
        exact List.suffix_of_suffix_length_le ih hrest hdeep

/-- The register has the value again that it had before the bracket. -/
theorem Bracket.reg_eq (h : Saves step reg saved) (hb : Bracket step ok saved s t) :
    reg t = reg s := by
  obtain ⟨s₁, s₂, ⟨l, -, hopen⟩, hlt, hrun, ⟨l', -, hclose⟩, hlen⟩ := hb
  have htop : reg s :: saved s <:+ saved s₂ :=
    h.suffix hrun _ (h.pushed hopen hlt ▸ List.suffix_rfl)
  have hdeep : (saved t).length < (saved s₂).length := by
    have hle := htop.length_le
    rw [List.length_cons] at hle
    omega
  rcases h s₂ l' t hclose with hpush | hsame | ⟨above, hpop⟩
  · rw [hpush, List.length_cons] at hdeep
    omega
  · rw [hsame] at hdeep
    omega
  · rw [hpop] at htop
    have heq := (List.suffix_of_suffix_length_le htop (List.suffix_append above _)
      (by simp only [List.length_cons, hlen, le_refl])).eq_of_length
      (by simp only [List.length_cons, hlen])
    exact (List.cons.inj heq).1.symm

end LfiRuntime.Brackets
