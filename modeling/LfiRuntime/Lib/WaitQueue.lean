import Mathlib.Data.List.Basic

/-!
Queues of waiters in the order they came, each with the key that it waits on. A
wake says which keys it means: it goes from the front, and requeueing moves
waiters to the end, on another key.
-/

namespace LfiRuntime.WaitQueue

variable {κ α : Type*}

section

variable (p : κ → Bool)

/-- How many wait on a key of `p`. -/
def waiters (q : List (κ × α)) : Nat := q.countP fun x => p x.1

/-- The first that waits on a key of `p`, and the queue without it. -/
def pop : List (κ × α) → Option ((κ × α) × List (κ × α))
  | [] => none
  | x :: q => if p x.1 then some (x, q) else (pop q).map fun r => (r.1, x :: r.2)

/-- Up to `n` that wait on a key of `p`, and the queue without them. -/
def take : Nat → List (κ × α) → List (κ × α) × List (κ × α)
  | 0, q => ([], q)
  | n + 1, q =>
    match pop p q with
    | none => ([], q)
    | some (x, q) => (x :: (take n q).1, (take n q).2)

end

/-- The waiters `ws` go to the end of the queue, on `k`. -/
def append (k : κ) (ws q : List (κ × α)) : List (κ × α) := q ++ ws.map fun x => (k, x.2)

variable {p : κ → Bool} {q q' : List (κ × α)} {x : κ × α}

theorem pop_eq_none_iff : pop p q = none ↔ waiters p q = 0 := by
  induction q with
  | nil => simp [pop, waiters]
  | cons y q ih =>
      rcases hy : p y.1 with _ | _
      · rw [pop, hy, if_neg (by simp), Option.map_eq_none_iff, ih]
        simp [waiters, hy]
      · simp [pop, waiters, hy]

theorem waiters_pop (h : pop p q = some (x, q')) : waiters p q = waiters p q' + 1 := by
  induction q generalizing q' with
  | nil => simp [pop] at h
  | cons y q ih =>
      rcases hy : p y.1 with _ | _
      · rw [pop, hy, if_neg (by simp), Option.map_eq_some_iff] at h
        obtain ⟨⟨x', r⟩, hpop, heq⟩ := h
        cases heq
        simpa [waiters, hy] using ih hpop
      · rw [pop, hy, if_pos rfl] at h
        cases h
        simp [waiters, hy]

theorem perm_pop (h : pop p q = some (x, q')) : q.Perm (x :: q') := by
  induction q generalizing q' with
  | nil => simp [pop] at h
  | cons y q ih =>
      rcases hy : p y.1 with _ | _
      · rw [pop, hy, if_neg (by simp), Option.map_eq_some_iff] at h
        obtain ⟨⟨x', r⟩, hpop, heq⟩ := h
        cases heq
        exact ((ih hpop).cons y).trans (.swap ..)
      · rw [pop, hy, if_pos rfl] at h
        cases h
        exact List.Perm.refl _

/-- As many are taken as there are, up to `n`. -/
theorem length_take (n : Nat) (q : List (κ × α)) :
    (take p n q).1.length = min n (waiters p q) := by
  induction n generalizing q with
  | zero => simp [take]
  | succ n ih =>
      rcases hpop : pop p q with _ | ⟨x, q'⟩
      · rw [pop_eq_none_iff] at hpop
        simp [take, pop_eq_none_iff.mpr hpop, hpop]
      · have hcount := waiters_pop hpop
        simp only [take, hpop, List.length_cons, ih]
        omega

theorem waiters_take (n : Nat) (q : List (κ × α)) :
    waiters p (take p n q).2 = waiters p q - n := by
  induction n generalizing q with
  | zero => simp [take]
  | succ n ih =>
      rcases hpop : pop p q with _ | ⟨x, q'⟩
      · simp [take, hpop, pop_eq_none_iff.mp hpop]
      · have hcount := waiters_pop hpop
        simp only [take, hpop, ih]
        omega

/-- No waiter is lost: who is not taken stays. -/
theorem perm_take (n : Nat) (q : List (κ × α)) :
    q.Perm ((take p n q).1 ++ (take p n q).2) := by
  induction n generalizing q with
  | zero => simp [take]
  | succ n ih =>
      rcases hpop : pop p q with _ | ⟨x, q'⟩
      · simp [take, hpop]
      · simp only [take, hpop]
        exact (perm_pop hpop).trans ((ih q').cons _)

theorem mem_of_mem_take {n : Nat} (h : x ∈ (take p n q).1) : x ∈ q :=
  (perm_take n q).mem_iff.mpr (List.mem_append_left _ h)

theorem mem_of_mem_rest {n : Nat} (h : x ∈ (take p n q).2) : x ∈ q :=
  (perm_take n q).mem_iff.mpr (List.mem_append_right _ h)

end LfiRuntime.WaitQueue
