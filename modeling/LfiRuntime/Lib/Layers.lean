import Mathlib.Data.List.Basic

/-!
Layers painted over a picture one after the other: each has a shape and shows values of
its own there, and where layers overlap the last one shows.
-/

namespace LfiRuntime.Layers

variable {σ α β : Type*} (covers : σ → α → Bool) (value : σ → α → β)

def paint (picture : α → β) (s : σ) : α → β := fun a =>
  if covers s a then value s a else picture a

/-- The last layer at `a`. -/
def top (layers : List σ) (a : α) : Option σ := layers.findRev? (covers · a)

variable {covers value} {layers layers' : List σ} {picture : α → β} {s t : σ} {a : α}

theorem top_cons : top covers (s :: layers) a =
    (top covers layers a).or (if covers s a then some s else none) := by
  simp only [top, List.findRev?]
  cases layers.findRev? (covers · a) <;> simp

theorem covers_of_top (h : top covers layers a = some s) : covers s a = true := by
  rw [top, List.findRev?_eq_find?_reverse] at h
  exact List.find?_some (p := (covers · a)) h

theorem mem_of_top (h : top covers layers a = some s) : s ∈ layers := by
  rw [top, List.findRev?_eq_find?_reverse] at h
  exact List.mem_reverse.mp (List.mem_of_find?_eq_some h)

theorem top_eq_none_iff : top covers layers a = none ↔ ∀ s ∈ layers, covers s a = false := by
  simp [top]

theorem exists_top (hs : s ∈ layers) (ha : covers s a = true) :
    ∃ t, top covers layers a = some t := by
  rw [← Option.ne_none_iff_exists', Ne, top_eq_none_iff]
  intro hnone
  rw [hnone s hs] at ha
  cases ha

/-- Layers that are made of others, with the shapes of those. -/
theorem top_map {τ ι : Type*} {covers' : τ → ι → Bool} {f : σ → τ} {b : ι}
    (h : ∀ s ∈ layers, covers' (f s) b = covers s a) :
    top covers' (layers.map f) b = (top covers layers a).map f := by
  induction layers with
  | nil => rfl
  | cons s layers ih =>
      rw [List.map_cons, top_cons, top_cons, ih fun t ht => h t (List.mem_cons_of_mem _ ht),
        h s List.mem_cons_self]
      cases top covers layers a with
      | some t => rfl
      | none =>
          simp only [Option.map_none, Option.none_or]
          split <;> rfl

/-- Layers that do not overlap do not hide each other. -/
theorem top_of_pairwise (h : layers.Pairwise fun s t => ∀ a, covers s a = true → covers t a = false)
    (hs : s ∈ layers) (ha : covers s a = true) : top covers layers a = some s := by
  obtain ⟨t, ht⟩ := exists_top hs ha
  have hsame : ∀ x ∈ layers, ∀ y ∈ layers, covers x a = true → covers y a = true → x = y := by
    intro x hx y hy
    refine List.Pairwise.forall_of_forall_of_flip
      (R := fun x y => covers x a = true → covers y a = true → x = y) (fun _ _ _ _ => rfl) ?_ ?_ hx hy
    · refine h.imp fun hapart hx hy => ?_
      rw [hapart a hx] at hy
      cases hy
    · refine h.imp fun hapart hy hx => ?_
      rw [hapart a hx] at hy
      cases hy
  rw [ht, hsame t (mem_of_top ht) s hs (covers_of_top ht) ha]

/-- A picture shows the last layer at each place. -/
theorem foldl_paint (layers : List σ) (picture : α → β) (a : α) :
    layers.foldl (paint covers value) picture a =
      ((top covers layers a).map (value · a)).getD (picture a) := by
  induction layers generalizing picture with
  | nil => rfl
  | cons s layers ih =>
      rw [List.foldl_cons, ih, top_cons]
      cases top covers layers a with
      | some t => rfl
      | none =>
          simp only [Option.map_none, Option.getD_none, Option.none_or, paint]
          split <;> rfl

end LfiRuntime.Layers
