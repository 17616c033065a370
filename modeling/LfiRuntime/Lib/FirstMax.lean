import Mathlib.Data.List.Basic
import Mathlib.Order.Nat

/-!
The first element of a list at which a measure is greatest, as a loop finds it
that remembers the best element so far and takes a new one only if it is better.
-/

namespace LfiRuntime.FirstMax

variable {α : Type*} {f g : α → Nat} {l : List α} {m a : α} {k : Nat}

/-- The variables of the loop: the best element, and its measure or, before there
is one, a bound that it has to exceed. -/
structure Best (α : Type*) where
  elem : Option α
  measure : Nat

def Best.step (f : α → Nat) (best : Best α) (a : α) : Best α :=
  if f a > best.measure then ⟨some a, f a⟩ else best

def IsFirstMax (f : α → Nat) (l : List α) (m : α) : Prop :=
  ∃ before after, l = before ++ m :: after ∧ (∀ a ∈ before, f a < f m) ∧ ∀ a ∈ after, f a ≤ f m

theorem IsFirstMax.mem (h : IsFirstMax f l m) : m ∈ l := by
  obtain ⟨before, after, rfl, -, -⟩ := h
  simp

theorem IsFirstMax.le (h : IsFirstMax f l m) (ha : a ∈ l) : f a ≤ f m := by
  obtain ⟨before, after, rfl, hbefore, hafter⟩ := h
  rcases List.mem_append.mp ha with ha | ha
  · exact (hbefore a ha).le
  · rcases List.mem_cons.mp ha with rfl | ha
    · exact le_rfl
    · exact hafter a ha

/-- A measure that orders the elements in the same way. -/
theorem IsFirstMax.congr (h : IsFirstMax f l m)
    (hfg : ∀ a ∈ l, ∀ b ∈ l, f a < f b → g a < g b) (hgf : ∀ a ∈ l, ∀ b ∈ l, f a ≤ f b → g a ≤ g b) :
    IsFirstMax g l m := by
  have hm := h.mem
  obtain ⟨before, after, rfl, hbefore, hafter⟩ := h
  refine ⟨before, after, rfl, fun a ha => ?_, fun a ha => ?_⟩
  · exact hfg a (by simp [ha]) m hm (hbefore a ha)
  · exact hgf a (by simp [ha]) m hm (hafter a ha)

theorem IsFirstMax.unique {m' : α} (h : IsFirstMax f l m) (h' : IsFirstMax f l m') : m = m' := by
  obtain ⟨before, after, rfl, hbefore, hafter⟩ := h
  obtain ⟨before', after', heq, hbefore', hafter'⟩ := h'
  rcases List.append_eq_append_iff.mp heq with ⟨mid, rfl, hmid⟩ | ⟨mid, rfl, hmid⟩
  · rcases mid with _ | ⟨b, mid⟩
    · exact (List.cons.inj hmid).1
    · obtain ⟨rfl, rfl⟩ := List.cons.inj hmid
      exact absurd (hbefore' m (by simp)) (Nat.not_lt.mpr (hafter m' (by simp)))
  · rcases mid with _ | ⟨b, mid⟩
    · exact (List.cons.inj hmid).1.symm
    · obtain ⟨rfl, rfl⟩ := List.cons.inj hmid
      exact absurd (hbefore m' (by simp)) (Nat.not_lt.mpr (hafter' m (by simp)))

theorem IsFirstMax.of_map {β : Type*} {h : β → α} {l : List β}
    (hmax : IsFirstMax f (l.map h) m) : ∃ b, h b = m ∧ IsFirstMax (f ∘ h) l b := by
  obtain ⟨before, after, heq, hbefore, hafter⟩ := hmax
  obtain ⟨bs, cs, rfl, rfl, hcs⟩ := List.map_eq_append_iff.mp heq
  obtain ⟨b, ds, rfl, rfl, rfl⟩ := List.map_eq_cons_iff.mp hcs
  refine ⟨b, rfl, bs, ds, rfl, fun a ha => ?_, fun a ha => ?_⟩
  · exact hbefore (h a) (List.mem_map_of_mem ha)
  · exact hafter (h a) (List.mem_map_of_mem ha)

theorem isFirstMax_head (h : ∀ b ∈ l, f b ≤ f a) : IsFirstMax f (a :: l) a :=
  ⟨[], l, rfl, by simp, h⟩

theorem IsFirstMax.cons (h : IsFirstMax f l m) (ha : f a < f m) : IsFirstMax f (a :: l) m := by
  obtain ⟨before, after, rfl, hbefore, hafter⟩ := h
  refine ⟨a :: before, after, rfl, ?_, hafter⟩
  intro b hb
  rcases List.mem_cons.mp hb with rfl | hb
  · exact ha
  · exact hbefore b hb

/-- The loop: no element exceeds the bound, or it finds the first greatest one. -/
theorem foldl_step (best : Best α) :
    (l.foldl (Best.step f) best = best ∧ ∀ a ∈ l, f a ≤ best.measure) ∨
      ∃ m, l.foldl (Best.step f) best = ⟨some m, f m⟩ ∧ IsFirstMax f l m ∧ best.measure < f m := by
  induction l generalizing best with
  | nil => exact .inl ⟨rfl, by simp⟩
  | cons a l ih =>
      rw [List.foldl_cons]
      by_cases ha : best.measure < f a
      · have hstep : best.step f a = ⟨some a, f a⟩ := if_pos ha
        rw [hstep]
        right
        rcases ih ⟨some a, f a⟩ with ⟨heq, hle⟩ | ⟨m, heq, hmax, hlt⟩
        · exact ⟨a, heq, isFirstMax_head hle, ha⟩
        · exact ⟨m, heq, hmax.cons hlt, ha.trans hlt⟩
      · have hstep : best.step f a = best := if_neg ha
        have hle : f a ≤ best.measure := le_of_not_gt ha
        rw [hstep]
        rcases ih best with ⟨heq, hall⟩ | ⟨m, heq, hmax, hlt⟩
        · exact .inl ⟨heq, by simpa [hle] using hall⟩
        · exact .inr ⟨m, heq, hmax.cons (hle.trans_lt hlt), hlt⟩

end LfiRuntime.FirstMax
