import Mathlib.Tactic

/-!
Blocks of memory that are handed out and given back. A block is named by the number of
those before it. A call is balanced when it has given back, just once, each block that was
handed out in it and no other.
-/

namespace LfiRuntime.Blocks

/-- `frees` is how often each block has been given back. -/
structure Heap where
  issued : Nat
  live : Finset Nat
  frees : Nat → Nat
  fresh : ∀ b ∈ live, b < issued

namespace Heap

def empty : Heap := ⟨0, ∅, fun _ => 0, fun _ hb => absurd hb (Finset.notMem_empty _)⟩

/-- The block that is handed out is `l.issued`. -/
def alloc (l : Heap) : Heap where
  issued := l.issued + 1
  live := insert l.issued l.live
  frees := l.frees
  fresh b hb := by
    rcases Finset.mem_insert.mp hb with rfl | hb
    · exact Nat.lt_succ_self _
    · exact Nat.lt_succ_of_lt (l.fresh b hb)

def free (l : Heap) (b : Nat) : Heap where
  issued := l.issued
  live := l.live.erase b
  frees := Function.update l.frees b (l.frees b + 1)
  fresh b' hb' := l.fresh b' (Finset.mem_of_mem_erase hb')

@[simp] theorem issued_alloc (l : Heap) : l.alloc.issued = l.issued + 1 := rfl

@[simp] theorem issued_free (l : Heap) (b : Nat) : (l.free b).issued = l.issued := rfl

@[simp] theorem live_alloc (l : Heap) : l.alloc.live = insert l.issued l.live := rfl

@[simp] theorem live_free (l : Heap) (b : Nat) : (l.free b).live = l.live.erase b := rfl

end Heap

structure Balanced (l l' : Heap) : Prop where
  issued : l.issued ≤ l'.issued
  live : l'.live = l.live
  frees : ∀ b, l'.frees b = l.frees b + if l.issued ≤ b ∧ b < l'.issued then 1 else 0

namespace Balanced

variable {l l₁ l' : Heap}

theorem refl (l : Heap) : Balanced l l := by
  refine ⟨le_rfl, rfl, fun b => ?_⟩
  rw [if_neg (by omega), Nat.add_zero]

theorem trans (h₁ : Balanced l l₁) (h₂ : Balanced l₁ l') : Balanced l l' := by
  refine ⟨h₁.issued.trans h₂.issued, h₂.live.trans h₁.live, fun b => ?_⟩
  have hle₁ := h₁.issued
  have hle₂ := h₂.issued
  rw [h₂.frees, h₁.frees]
  split_ifs <;> omega

/-- A balanced call in between, the block is given back. -/
theorem bracket (h : Balanced l.alloc l₁) : Balanced l (l₁.free l.issued) := by
  have hissued : l.issued + 1 ≤ l₁.issued := h.issued
  refine ⟨(Nat.le_succ _).trans hissued, ?_, fun b => ?_⟩
  · have hnew : l.issued ∉ l.live := fun hmem => lt_irrefl _ (l.fresh _ hmem)
    rw [Heap.live_free, h.live, Heap.live_alloc, Finset.erase_insert hnew]
  · have hfrees := h.frees b
    have hold : l.alloc.frees = l.frees := rfl
    rw [Heap.issued_alloc, hold] at hfrees
    show Function.update l₁.frees l.issued (l₁.frees l.issued + 1) b =
      l.frees b + if l.issued ≤ b ∧ b < l₁.issued then 1 else 0
    rcases eq_or_ne b l.issued with rfl | hne
    · rw [Function.update_self, hfrees]
      split_ifs <;> omega
    · rw [Function.update_of_ne hne, hfrees]
      split_ifs <;> omega

theorem not_of_live {b : Nat} (hb : l.issued ≤ b) (h : b ∈ l'.live) : ¬Balanced l l' := by
  intro hbal
  rw [hbal.live] at h
  exact absurd (l.fresh _ h) (not_lt.mpr hb)

end Balanced

end LfiRuntime.Blocks
