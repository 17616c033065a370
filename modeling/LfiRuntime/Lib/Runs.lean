import Mathlib.Logic.Relation

/-!
Runs of labelled transition systems, with a side condition on the steps. The
condition is how a theorem says "in every run whose steps all satisfy `ok`".
-/

namespace LfiRuntime.Runs

universe u v

variable {σ : Type u} {ℓ : Type v}

/-- One step of `step` whose label is admitted by `ok` in the state it leaves. -/
def StepIn (step : σ → ℓ → σ → Prop) (ok : σ → ℓ → Prop) (s t : σ) : Prop :=
  ∃ l, ok s l ∧ step s l t

/-- `t` is reached from `s` by a run whose steps all satisfy `ok`. -/
def Reaches (step : σ → ℓ → σ → Prop) (ok : σ → ℓ → Prop) : σ → σ → Prop :=
  Relation.ReflTransGen (StepIn step ok)

/-- The condition that every step satisfies. -/
def anyStep : σ → ℓ → Prop := fun _ _ => True

variable {step : σ → ℓ → σ → Prop} {ok ok' : σ → ℓ → Prop}

theorem Reaches.refl (s : σ) : Reaches step ok s s :=
  Relation.ReflTransGen.refl

theorem Reaches.tail {s t u : σ} {l : ℓ} (h : Reaches step ok s t)
    (hok : ok t l) (hstep : step t l u) : Reaches step ok s u :=
  Relation.ReflTransGen.tail h ⟨l, hok, hstep⟩

theorem Reaches.trans {s t u : σ} (h : Reaches step ok s t)
    (h' : Reaches step ok t u) : Reaches step ok s u :=
  Relation.ReflTransGen.trans h h'

/-- The invariant rule: a property of the first state that every admitted step
keeps holds of every state reached. -/
theorem Reaches.invariant {Inv : σ → Prop} {s t : σ}
    (h : Reaches step ok s t) (hs : Inv s)
    (hkeep : ∀ s l t, Inv s → ok s l → step s l t → Inv t) : Inv t := by
  induction h with
  | refl => exact hs
  | tail _ hstep ih =>
      obtain ⟨l, hok, hst⟩ := hstep
      exact hkeep _ l _ ih hok hst

theorem Reaches.mono {s t : σ} (h : Reaches step ok s t)
    (himp : ∀ s l, ok s l → ok' s l) : Reaches step ok' s t :=
  Relation.ReflTransGen.mono (fun _ _ ⟨l, hok, hst⟩ => ⟨l, himp _ _ hok, hst⟩) _ _ h

/-- `ls` are the labels of a run from `s` to `t`. -/
inductive Trace (step : σ → ℓ → σ → Prop) : σ → List ℓ → σ → Prop
  | nil (s : σ) : Trace step s [] s
  | cons {s t u : σ} {l : ℓ} {ls : List ℓ} (hstep : step s l t) (h : Trace step t ls u) :
      Trace step s (l :: ls) u

theorem trace_nil_iff {s t : σ} : Trace step s [] t ↔ s = t := by
  constructor
  · rintro ⟨⟩
    rfl
  · rintro rfl
    exact .nil s

theorem trace_cons_iff {s u : σ} {l : ℓ} {ls : List ℓ} :
    Trace step s (l :: ls) u ↔ ∃ t, step s l t ∧ Trace step t ls u := by
  constructor
  · rintro (_ | ⟨hstep, h⟩)
    exact ⟨_, hstep, h⟩
  · rintro ⟨t, hstep, h⟩
    exact .cons hstep h

theorem Trace.snoc {s t u : σ} {l : ℓ} {ls : List ℓ} (h : Trace step s ls t)
    (hstep : step t l u) : Trace step s (ls ++ [l]) u := by
  induction h with
  | nil s => exact .cons hstep (.nil u)
  | cons hfirst _ ih => exact .cons hfirst (ih hstep)

/-- The simulation rule: where every step from a state with the invariant is a
step of the abstract system with the same label, so is every run. -/
theorem Trace.simulate {τ : Type*} {step' : τ → ℓ → τ → Prop} {Inv : σ → Prop} (abs : σ → τ)
    (hsim : ∀ s l t, Inv s → step s l t → Inv t ∧ step' (abs s) l (abs t))
    {s t : σ} {ls : List ℓ} (h : Trace step s ls t) (hs : Inv s) :
    Inv t ∧ Trace step' (abs s) ls (abs t) := by
  induction h with
  | nil s => exact ⟨hs, .nil _⟩
  | cons hstep _ ih =>
      obtain ⟨hinv, hstep'⟩ := hsim _ _ _ hs hstep
      obtain ⟨hinv', htrace⟩ := ih hinv
      exact ⟨hinv', .cons hstep' htrace⟩

end LfiRuntime.Runs
