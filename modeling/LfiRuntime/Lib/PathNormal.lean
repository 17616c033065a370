import Mathlib.Data.List.Basic

/-!
Lexical normal forms of paths, over segments of any type: a `..` takes the
segment before it away, and is dropped at the root of an absolute path.
-/

namespace LfiRuntime.PathNormal

inductive Kind
  | current
  | back
  | normal
deriving DecidableEq, Repr

variable {β : Type*} (kind : β → Kind)

/-- The next segment, on a stack of those that are left, innermost first. -/
def push (absolute : Bool) (out : List β) (s : β) : List β :=
  match kind s with
  | .current => out
  | .normal => s :: out
  | .back =>
    match out with
    | [] => if absolute then [] else [s]
    | p :: out => if kind p = .normal then out else if absolute then p :: out else s :: p :: out

def reduce (absolute : Bool) (segs : List β) : List β :=
  (segs.foldl (push kind absolute) []).reverse

/-- Only segments with a name. -/
def Named (segs : List β) : Prop := ∀ s ∈ segs, kind s = .normal

/-- Only segments that climb. -/
def Climbing (segs : List β) : Prop := ∀ s ∈ segs, kind s = .back

/-- A normal form: names, after what climbs out of the directory that a relative
path starts in. -/
def Reduced (absolute : Bool) (segs : List β) : Prop :=
  ∃ backs names, segs = backs ++ names ∧ Climbing kind backs ∧ Named kind names ∧
    (absolute = true → backs = [])

variable {kind} {absolute : Bool} {segs segs' out : List β} {s p : β}

theorem push_current (h : kind s = .current) : push kind absolute out s = out := by
  simp [push, h]

theorem push_normal (h : kind s = .normal) : push kind absolute out s = s :: out := by
  simp [push, h]

theorem push_back_normal (h : kind s = .back) (hp : kind p = .normal) :
    push kind absolute (p :: out) s = out := by
  simp [push, h, hp]

/-- A `..` with no name to take away. -/
theorem push_back_climbing (h : kind s = .back) (hout : ∀ p ∈ out.head?, kind p ≠ .normal) :
    push kind absolute out s = if absolute then out else s :: out := by
  cases out with
  | nil => simp [push, h]
  | cons p out => simp [push, h, hout p rfl]

theorem foldl_push_named (h : Named kind segs) :
    segs.foldl (push kind absolute) out = segs.reverse ++ out := by
  induction segs generalizing out with
  | nil => rfl
  | cons s segs ih =>
      rw [List.foldl_cons, push_normal (h s List.mem_cons_self),
        ih fun t ht => h t (List.mem_cons_of_mem _ ht)]
      simp

theorem foldl_push_climbing (h : Climbing kind segs) (hout : Climbing kind out) :
    segs.foldl (push kind false) out = segs.reverse ++ out := by
  induction segs generalizing out with
  | nil => rfl
  | cons s segs ih =>
      have hs : kind s = .back := h s List.mem_cons_self
      have hhead : ∀ p ∈ out.head?, kind p ≠ .normal := by
        intro p hp
        simp [hout p (List.mem_of_mem_head? hp)]
      rw [List.foldl_cons, push_back_climbing hs hhead, if_neg Bool.false_ne_true, ih]
      · simp
      · exact fun t ht => h t (List.mem_cons_of_mem _ ht)
      · intro t ht
        rcases List.mem_cons.mp ht with rfl | ht
        · exact hs
        · exact hout t ht

theorem Named.append (h : Named kind segs) (h' : Named kind segs') :
    Named kind (segs ++ segs') := by
  intro t ht
  rcases List.mem_append.mp ht with ht | ht
  · exact h t ht
  · exact h' t ht

theorem Reduced.append (h : Reduced kind absolute segs) (hnamed : Named kind segs') :
    Reduced kind absolute (segs ++ segs') := by
  obtain ⟨backs, names, rfl, hbacks, hnames, habs⟩ := h
  exact ⟨backs, names ++ segs', List.append_assoc .., hbacks, hnames.append hnamed, habs⟩

theorem push_reduced (h : Reduced kind absolute out.reverse) :
    Reduced kind absolute (push kind absolute out s).reverse := by
  cases hs : kind s with
  | current => rwa [push_current hs]
  | normal =>
      rw [push_normal hs, List.reverse_cons]
      exact h.append (by simpa [Named] using hs)
  | back =>
      obtain ⟨backs, names, heq, hbacks, hnames, habs⟩ := h
      rcases List.eq_nil_or_concat names with rfl | ⟨ns, n, rfl⟩
      · rw [List.append_nil] at heq
        have hout : ∀ p ∈ out.head?, kind p ≠ .normal := by
          intro p hp
          have hback := hbacks p (by simpa [← heq] using List.mem_of_mem_head? hp)
          simp [hback]
        rw [push_back_climbing hs hout]
        split
        · exact ⟨backs, [], by simpa using heq, hbacks, hnames, habs⟩
        · rename_i hrel
          refine ⟨backs ++ [s], [], by simp [heq], ?_, hnames, fun h => absurd h hrel⟩
          intro b hb
          rcases List.mem_append.mp hb with hb | hb
          · exact hbacks b hb
          · rwa [List.mem_singleton.mp hb]
      · have hout : out = n :: (ns.reverse ++ backs.reverse) := by
          have heq' := congrArg List.reverse heq
          simpa using heq'
        rw [hout, push_back_normal hs (hnames n (by simp))]
        exact ⟨backs, ns, by simp, hbacks, fun t ht => hnames t (by simp [ht]), habs⟩

theorem reduce_reduced : Reduced kind absolute (reduce kind absolute segs) := by
  have hfold : ∀ out : List β, Reduced kind absolute out.reverse →
      Reduced kind absolute (segs.foldl (push kind absolute) out).reverse := by
    induction segs with
    | nil => exact fun out h => h
    | cons s segs ih => exact fun out h => ih _ (push_reduced h)
  exact hfold [] ⟨[], [], rfl, by simp [Climbing], by simp [Named], fun _ => rfl⟩

/-- A normal form is left as it is. -/
theorem reduce_of_reduced (h : Reduced kind absolute segs) : reduce kind absolute segs = segs := by
  obtain ⟨backs, names, rfl, hbacks, hnames, habs⟩ := h
  rw [reduce, List.foldl_append, foldl_push_named hnames]
  cases absolute with
  | true => simp [habs rfl]
  | false =>
      rw [foldl_push_climbing hbacks (by simp [Climbing])]
      simp

/-- Names that follow are kept. -/
theorem reduce_append_named (h : Named kind segs') :
    reduce kind absolute (segs ++ segs') = reduce kind absolute segs ++ segs' := by
  rw [reduce, List.foldl_append, foldl_push_named h, reduce]
  simp

theorem mem_push {t : β} (h : t ∈ push kind absolute out s) : t ∈ s :: out := by
  cases hs : kind s with
  | current =>
      rw [push_current hs] at h
      exact List.mem_cons_of_mem _ h
  | normal => rwa [push_normal hs] at h
  | back =>
      rcases out with _ | ⟨p, out⟩
      · cases absolute <;> simp [push, hs] at h
        simp [h]
      · by_cases hp : kind p = .normal
        · rw [push_back_normal hs hp] at h
          simp [h]
        · cases absolute
          · simpa [push, hs, hp] using h
          · simp only [push, hs, hp, if_true, if_false] at h
            exact List.mem_cons_of_mem _ h

theorem mem_reduce {t : β} (h : t ∈ reduce kind absolute segs) : t ∈ segs := by
  have hfold : ∀ out : List β, t ∈ segs.foldl (push kind absolute) out → t ∈ segs ∨ t ∈ out := by
    clear h
    induction segs with
    | nil => exact fun out h => .inr h
    | cons s segs ih =>
        intro out h
        rcases ih _ h with h | h
        · exact .inl (List.mem_cons_of_mem _ h)
        · rcases List.mem_cons.mp (mem_push h) with rfl | h
          · exact .inl List.mem_cons_self
          · exact .inr h
  exact (hfold [] (List.mem_reverse.mp h)).resolve_right (by simp)

theorem push_map {γ : Type*} (f : γ → β) (out : List γ) (s : γ) :
    push kind absolute (out.map f) (f s) = (push (kind ∘ f) absolute out s).map f := by
  cases hs : kind (f s) with
  | current => rw [push_current hs, @push_current _ (kind ∘ f) _ _ _ hs]
  | normal => rw [push_normal hs, @push_normal _ (kind ∘ f) _ _ _ hs, List.map_cons]
  | back =>
      rcases out with _ | ⟨p, out⟩
      · cases absolute <;> simp [push, hs]
      · by_cases hp : kind (f p) = .normal
        · simp [push, hs, hp]
        · cases absolute <;> simp [push, hs, hp]

theorem reduce_map {γ : Type*} (f : γ → β) (segs : List γ) :
    reduce kind absolute (segs.map f) = (reduce (kind ∘ f) absolute segs).map f := by
  have hfold : ∀ out : List γ, (segs.map f).foldl (push kind absolute) (out.map f) =
      (segs.foldl (push (kind ∘ f) absolute) out).map f := by
    induction segs with
    | nil => exact fun out => rfl
    | cons s segs ih =>
        intro out
        rw [List.map_cons, List.foldl_cons, List.foldl_cons, push_map, ih]
  rw [reduce, reduce, List.map_reverse, ← hfold []]
  rfl

theorem reduced_of_map {γ : Type*} (f : γ → β) {segs : List γ}
    (h : Reduced kind absolute (segs.map f)) : Reduced (kind ∘ f) absolute segs := by
  obtain ⟨backs, names, heq, hbacks, hnames, habs⟩ := h
  obtain ⟨backs', names', rfl, rfl, rfl⟩ := List.map_eq_append_iff.mp heq
  refine ⟨backs', names', rfl, ?_, ?_, fun h => List.map_eq_nil_iff.mp (habs h)⟩
  · exact fun b hb => hbacks _ (List.mem_map_of_mem hb)
  · exact fun n hn => hnames _ (List.mem_map_of_mem hn)

/-- In an absolute path nothing climbs. -/
theorem named_reduce_absolute : Named kind (reduce kind true segs) := by
  obtain ⟨backs, names, heq, -, hnames, habs⟩ := @reduce_reduced _ kind true segs
  rw [heq, habs rfl]
  exact hnames

end LfiRuntime.PathNormal
