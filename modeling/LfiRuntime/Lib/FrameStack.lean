import LfiRuntime.Lib.BlockMemory

/-!
Frames on a stack that grows down in one block of a memory. A frame is the
offset of its lowest cell with the words it holds; the innermost is first.
-/

namespace LfiRuntime.FrameStack

open LfiRuntime.BlockMemory

variable {β : Type}

structure Region (β : Type) where
  lo : Int
  words : List (Word β)

def Region.hi (r : Region β) : Int := r.lo + 8 * r.words.length

/-- Nothing of the frames is below `k`. -/
def Above (rs : List (Region β)) (k : Int) : Prop := ∀ r ∈ rs.head?, k ≤ r.lo

/-- The frames are in the memory, each below the next. -/
def Stacked (m : Cells β) (b : β) : List (Region β) → Prop
  | [] => True
  | r :: rs => m.Holds (.ptr b r.lo) r.words ∧ Above rs r.hi ∧ Stacked m b rs

/-- From the innermost frame up, two memories are the same. -/
def Untouched (m m' : Cells β) (b : β) (rs : List (Region β)) : Prop :=
  ∀ r ∈ rs.head?, ∀ i, r.lo ≤ i → m' (.ptr b i) = m (.ptr b i)

variable {m m' : Cells β} {b : β} {r : Region β} {rs : List (Region β)} {k : Int}

theorem Region.lo_le_hi (r : Region β) : r.lo ≤ r.hi := by
  simp only [Region.hi]
  omega

theorem Above.mono {i : Int} (h : Above rs k) (hik : i ≤ k) : Above rs i := by
  intro r hr
  exact le_trans hik (h r hr)

theorem untouched_of_above (habove : Above rs k)
    (hsame : ∀ i, k ≤ i → m' (.ptr b i) = m (.ptr b i)) : Untouched m m' b rs := by
  intro r hr i hi
  exact hsame i (le_trans (habove r hr) hi)

/-- The memory below the innermost frame is free. -/
theorem Stacked.congr (h : Stacked m b rs) (hsame : Untouched m m' b rs) :
    Stacked m' b rs := by
  induction rs with
  | nil => trivial
  | cons r rs ih =>
      obtain ⟨hhead, habove, htail⟩ := h
      have hkept : ∀ i, r.lo ≤ i → m' (.ptr b i) = m (.ptr b i) := hsame r rfl
      refine ⟨hhead.congr hkept, habove, ih htail ?_⟩
      apply untouched_of_above habove
      intro i hi
      exact hkept i (le_trans r.lo_le_hi hi)

theorem Stacked.push (h : Stacked m b rs) (habove : Above rs r.hi) (hk : Above rs k)
    (hframe : m'.Holds (.ptr b r.lo) r.words)
    (hsame : ∀ i, k ≤ i → m' (.ptr b i) = m (.ptr b i)) : Stacked m' b (r :: rs) :=
  ⟨hframe, habove, h.congr (untouched_of_above hk hsame)⟩

theorem Stacked.holds (h : Stacked m b (r :: rs)) : m.Holds (.ptr b r.lo) r.words := h.1

theorem Stacked.above (h : Stacked m b (r :: rs)) : Above rs r.hi := h.2.1

theorem Stacked.pop (h : Stacked m b (r :: rs)) : Stacked m b rs := h.2.2

/-- Every frame further out lies above the innermost one. -/
theorem Stacked.hi_le (h : Stacked m b (r :: rs)) {q : Region β} (hq : q ∈ rs) :
    r.hi ≤ q.lo := by
  induction rs generalizing r with
  | nil => cases hq
  | cons p rs ih =>
      have hp : r.hi ≤ p.lo := h.above p rfl
      rcases List.mem_cons.mp hq with rfl | hq
      · exact hp
      · have hrest := ih h.pop hq
        exact le_trans hp (le_trans p.lo_le_hi hrest)

end LfiRuntime.FrameStack
