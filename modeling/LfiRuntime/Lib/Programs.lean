import Mathlib.Logic.Basic

/-!
Programs that make calls, and what holds of all their calls and of their result
whatever the answers are.
-/

namespace LfiRuntime.Programs

/-- A call of type `Op β` is answered with a `β`. -/
inductive Program (Op : Type → Type 1) (α : Type) : Type 1
  | ret (a : α)
  | call {β : Type} (o : Op β) (next : β → Program Op α)

namespace Program

variable {Op : Type → Type 1} {α β : Type}

def bind : Program Op α → (α → Program Op β) → Program Op β
  | ret a, f => f a
  | call o next, f => call o fun x => (next x).bind f

instance : Monad (Program Op) where
  pure := ret
  bind := bind

/-- The call alone. -/
def perform (o : Op α) : Program Op α := call o ret

/-- Every call is in `G`, and the result is in `Q`, for all answers. -/
def Meets (G : ∀ {β : Type}, Op β → Prop) (Q : α → Prop) : Program Op α → Prop
  | ret a => Q a
  | call o next => G o ∧ ∀ x, (next x).Meets G Q

/-- What is left of the program after some answers. -/
inductive After : Program Op α → Program Op α → Prop
  | refl (p : Program Op α) : After p p
  | step {δ : Type} {o : Op δ} {next : δ → Program Op α} {q : Program Op α} (x : δ)
      (h : After (next x) q) : After (call o next) q

variable {G G' : ∀ {β : Type}, Op β → Prop} {Q Q' : α → Prop} {p q : Program Op α}

@[simp] theorem meets_pure (a : α) : (pure a : Program Op α).Meets G Q ↔ Q a := Iff.rfl

@[simp] theorem meets_ret (a : α) : (ret a : Program Op α).Meets G Q ↔ Q a := Iff.rfl

@[simp] theorem meets_call (o : Op β) (next : β → Program Op α) :
    (call o next).Meets G Q ↔ G o ∧ ∀ x, (next x).Meets G Q := Iff.rfl

@[simp] theorem meets_perform (o : Op α) : (perform o).Meets G Q ↔ G o ∧ ∀ x, Q x := Iff.rfl

@[simp] theorem meets_bind {R : β → Prop} (p : Program Op α) (f : α → Program Op β) :
    (p >>= f).Meets G R ↔ p.Meets G fun a => (f a).Meets G R := by
  change (p.bind f).Meets G R ↔ _
  induction p with
  | ret a => exact Iff.rfl
  | call o next ih =>
      apply and_congr Iff.rfl
      apply forall_congr'
      exact ih

@[simp] theorem meets_ite {c : Prop} [Decidable c] :
    (if c then p else q).Meets G Q ↔ (c → p.Meets G Q) ∧ (¬c → q.Meets G Q) := by
  split <;> simp_all

theorem Meets.mono (h : p.Meets G Q) (hG : ∀ {β : Type} (o : Op β), G o → G' o)
    (hQ : ∀ a, Q a → Q' a) : p.Meets G' Q' := by
  induction p with
  | ret a => exact hQ a h
  | call o next ih => exact ⟨hG o h.1, fun x => ih x (h.2 x)⟩

theorem Meets.after (h : p.Meets G Q) (hafter : After p q) : q.Meets G Q := by
  induction hafter with
  | refl p => exact h
  | step x _ ih => exact ih (h.2 x)

theorem meets_iff_after : p.Meets G Q ↔
    (∀ (β : Type) (o : Op β) (next : β → Program Op α), After p (call o next) → G o) ∧
      ∀ a, After p (ret a) → Q a := by
  constructor
  · intro h
    exact ⟨fun β o next hafter => (h.after hafter).1, fun a hafter => h.after hafter⟩
  · rintro ⟨hcalls, hret⟩
    induction p with
    | ret a => exact hret a (.refl _)
    | call o next ih =>
        refine ⟨hcalls _ o next (.refl _), fun x => ih x ?_ ?_⟩
        · exact fun β o' next' hafter => hcalls β o' next' (.step x hafter)
        · exact fun a hafter => hret a (.step x hafter)

end Program

end LfiRuntime.Programs
