import Mathlib.Tactic

/-!
Runs of free cells in a row of cells, the lowest one of a length, and what
taking the lowest one means when all runs ever taken have the same length.
-/

namespace LfiRuntime.FirstFit

/-- The cells `[s, s + n)` of a row of `size` cells are free. -/
def IsRun (used : Nat → Prop) (size n s : Nat) : Prop :=
  s + n ≤ size ∧ ∀ i, s ≤ i → i < s + n → ¬used i

/-- The lowest run of `n` free cells begins at `s`. -/
def IsFirstRun (used : Nat → Prop) (size n s : Nat) : Prop :=
  IsRun used size n s ∧ ∀ t, t < s → ¬IsRun used size n t

/-- The cells of each block of `k` cells are used together. -/
def Blocked (used : Nat → Prop) (k : Nat) : Prop :=
  ∀ i j, i / k = j / k → used i → used j

variable {used : Nat → Prop} {size n k s t i : Nat}

/-- A row that reaches a used cell from the run is no run. -/
theorem not_isRun_of_used (hused : used i) (hlo : s ≤ i) (hhi : i < s + n) :
    ¬IsRun used size n s :=
  fun hrun => hrun.2 i hlo hhi hused

/-- In a row of blocks the lowest run of a block's length is a block. -/
theorem IsFirstRun.dvd (hk : 0 < k) (hblocked : Blocked used k)
    (hs : IsFirstRun used size k s) : k ∣ s := by
  by_contra hdvd
  have hmod : s % k ≠ 0 := fun hzero => hdvd (Nat.dvd_of_mod_eq_zero hzero)
  have hdiv := Nat.div_add_mod s k
  have hcomm : k * (s / k) = s / k * k := Nat.mul_comm _ _
  refine hs.2 (s / k * k) (by omega) ⟨by have := hs.1.1; omega, fun i hlo hhi hi => ?_⟩
  -- a used cell in the block of `s` would make `s` itself used
  have hblock : i / k = s / k := by
    refine Nat.div_eq_of_lt_le hlo ?_
    rw [Nat.succ_mul]
    exact hhi
  exact hs.1.2 s le_rfl (by omega) (hblocked i s hblock hi)

/-- A row of blocks without a run of a block's length has no free block. -/
theorem used_of_no_run (hblocked : Blocked used k)
    (hnone : ∀ s, ¬IsRun used size k s) (hi : (i / k + 1) * k ≤ size) : used i := by
  by_contra hfree
  refine hnone (i / k * k) ⟨by rw [← Nat.succ_mul]; exact hi, fun j hlo hhi hj => ?_⟩
  have hblock : j / k = i / k := by
    refine Nat.div_eq_of_lt_le hlo ?_
    rw [Nat.succ_mul]
    exact hhi
  exact hfree (hblocked j i hblock hj)

end LfiRuntime.FirstFit
