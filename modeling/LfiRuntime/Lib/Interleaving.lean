import Mathlib.Tactic

/-!
Threads that take turns. What the threads contribute to a shared counter is the
`total` of what each of them contributes, so a step of one thread changes the
total by the change of its own part. Condition variables are the POSIX ones: a
signal wakes a thread that is asleep, and a thread may wake without a signal.
-/

namespace LfiRuntime.Interleaving

variable {α : Type*}

/-- The sum of `f` over the threads. -/
def total (f : α → Nat) (threads : List α) : Nat := (threads.map f).sum

@[simp] theorem total_nil (f : α → Nat) : total f [] = 0 := rfl

@[simp] theorem total_cons (f : α → Nat) (t : α) (threads : List α) :
    total f (t :: threads) = f t + total f threads := by
  simp [total]

@[simp] theorem total_append (f : α → Nat) (before after : List α) :
    total f (before ++ after) = total f before + total f after := by
  simp [total]

theorem total_eq_zero_iff {f : α → Nat} {threads : List α} :
    total f threads = 0 ↔ ∀ t ∈ threads, f t = 0 := by
  induction threads with
  | nil => simp
  | cons t threads ih => simp [ih]

theorem total_le_total {f g : α → Nat} {threads : List α} (h : ∀ t, f t ≤ g t) :
    total f threads ≤ total g threads := by
  induction threads with
  | nil => exact Nat.le_refl 0
  | cons t threads ih =>
      rw [total_cons, total_cons]
      exact Nat.add_le_add (h t) ih

/-- A condition variable: the threads asleep that no signal has reached, and
the signals sent that no thread has woken from yet. -/
structure Cond where
  sleepers : Nat
  wakeups : Nat
  deriving DecidableEq, Repr

namespace Cond

/-- `pthread_cond_wait`, up to the return of the thread that sleeps. -/
def wait (c : Cond) : Cond := { c with sleepers := c.sleepers + 1 }

/-- `pthread_cond_signal`. -/
def signal (c : Cond) : Cond :=
  if c.sleepers = 0 then c else ⟨c.sleepers - 1, c.wakeups + 1⟩

/-- A thread that sleeps wakes up. -/
inductive Wakes : Cond → Cond → Prop
  | signalled (sleepers wakeups : Nat) : Wakes ⟨sleepers, wakeups + 1⟩ ⟨sleepers, wakeups⟩
  | spurious (sleepers wakeups : Nat) : Wakes ⟨sleepers + 1, wakeups⟩ ⟨sleepers, wakeups⟩

theorem signal_count (c : Cond) :
    c.signal.sleepers + c.signal.wakeups = c.sleepers + c.wakeups := by
  rw [signal]
  split
  · rfl
  · simp only
    omega

theorem sleepers_signal (c : Cond) : c.signal.sleepers = c.sleepers - 1 := by
  rw [signal]
  split
  · omega
  · rfl

theorem Wakes.count {c d : Cond} (h : Wakes c d) :
    d.sleepers + d.wakeups + 1 = c.sleepers + c.wakeups ∧ d.sleepers ≤ c.sleepers := by
  cases h <;> simp only <;> omega

end Cond

end LfiRuntime.Interleaving
