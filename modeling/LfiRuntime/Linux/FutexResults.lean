import LfiRuntime.Linux.Futex

/-!
When the value that a futex call hands back to the sandbox is the one that the
Linux system call returns.
-/

namespace LfiRuntime.Futex

open LfiRuntime.BoxRange
open LfiRuntime.Runs
open LfiRuntime.WaitQueue

variable {b : Backend} {box : Box} {s s' : State}

/-- The sandbox gets what Linux returns. -/
def Returned.Right (r : Returned) : Prop := r.linux = some r.box

instance (r : Returned) : Decidable r.Right := inferInstanceAs (Decidable (_ = _))

/-- The macOS backend counts what Linux counts: it finds `n` waiters at the address, knows
no requeueing and, from `INT_MAX` on, no number. -/
def MacosCounts (n val count : Nat) : Prop :=
  val < FutexMacos.intMax ∧ min val n = count ∨
    FutexMacos.intMax ≤ val ∧ count = if n = 0 then 0 else FutexMacos.intMax

/-- A wake finds its key, and on macOS as many waiters at the address. -/
def WakeGood (b : Backend) (s : State) (uaddr : Nat) (op : BitVec 32) (val : Nat) : Prop :=
  ∃ k, Linux.key s.mem op uaddr = some k ∧ (b = .macos →
    MacosCounts (waiters (FutexMacos.on uaddr) s.queue) val
      (min (Linux.wakes val) (waiters (Linux.on k) s.queue)))

/-- A requeue has numbers that Linux takes and finds its keys, and on macOS as many waiters
at the first address. -/
def RequeueGood (b : Backend) (s : State) (uaddr : Nat) (op : BitVec 32) (val val2 uaddr2 : Nat) :
    Prop :=
  val < 2 ^ 31 ∧ val2 < 2 ^ 31 ∧ (Linux.key s.mem op uaddr2).isSome ∧
    ∃ k, Linux.key s.mem op uaddr = some k ∧ (b = .macos →
      MacosCounts (waiters (FutexMacos.on uaddr) s.queue) val
        (min val (waiters (Linux.on k) s.queue) +
          min val2 (waiters (Linux.on k) s.queue - val)))

/-- A wait that Linux puts to sleep. -/
def Sleeps (s : State) (uaddr : Nat) (op : BitVec 32) (val : Nat) (timeout : Option TimeSpec) :
    Prop :=
  timeout.all TimeSpec.valid ∧ (Linux.key s.mem op uaddr).isSome ∧ s.mem.readable uaddr ∧
    s.mem.word uaddr = val

/-- The condition on a step that makes a call return. A wait returns right at once where
macOS, too, finds that its word cannot be read; and from its sleep when it is woken, and on
macOS when it times out, if it is one that Linux puts to sleep. -/
def Good (b : Backend) (box : Box) (s : State) : Label → Prop
  | .store _ => True
  | .call _ a =>
    match sysFutex box s.mem a with
    | .error _ => True
    | .ok (.wait uaddr op val timeout) => Sleeps s uaddr op val timeout ∨
        b = .macos ∧ timeout.all TimeSpec.valid ∧ s.mem.readable uaddr = false
    | .ok (.wake uaddr op val) => WakeGood b s uaddr op val
    | .ok (.requeue uaddr op val val2 uaddr2) => RequeueGood b s uaddr op val val2 uaddr2
  | .wakeup w => b = .linux ∨ w.due = none
  | .timeout w => b = .macos ∧ w.due = none
  | .interrupt _ => False

/-! What the host calls count. -/

theorem Linux.wake_result {k : Key} {op : BitVec 32} {uaddr : Nat}
    (hk : Linux.key s.mem op uaddr = some k) (val : Nat) :
    (Linux.wake s uaddr op val).1 = .ok (min (wakes val) (waiters (on k) s.queue)) := by
  simp only [Linux.wake, hk, length_take]

theorem Linux.wake_fault {op : BitVec 32} {uaddr : Nat} (hk : Linux.key s.mem op uaddr = none)
    (val : Nat) : (Linux.wake s uaddr op val).1 = .err .efault := by
  simp only [Linux.wake, hk]

/-- Linux requeues, or refuses. -/
theorem Linux.requeue_cases (s : State) (uaddr : Nat) (op : BitVec 32) (val val2 uaddr2 : Nat) :
    (∃ k, val < 2 ^ 31 ∧ val2 < 2 ^ 31 ∧ (Linux.key s.mem op uaddr2).isSome ∧
        Linux.key s.mem op uaddr = some k ∧ (Linux.requeue s uaddr op val val2 uaddr2).1 =
          .ok (min val (waiters (on k) s.queue) + min val2 (waiters (on k) s.queue - val))) ∨
      (∃ e, (Linux.requeue s uaddr op val val2 uaddr2).1 = .err e) ∧
        ¬(val < 2 ^ 31 ∧ val2 < 2 ^ 31 ∧ (Linux.key s.mem op uaddr2).isSome ∧
          (Linux.key s.mem op uaddr).isSome) := by
  rw [Linux.requeue]
  split
  · exact .inr ⟨⟨_, rfl⟩, by omega⟩
  · rename_i hval
    rcases hk : Linux.key s.mem op uaddr with _ | k
    · exact .inr ⟨⟨_, rfl⟩, by simp⟩
    · rcases hk2 : Linux.key s.mem op uaddr2 with _ | k2
      · exact .inr ⟨⟨_, rfl⟩, by simp⟩
      · refine .inl ⟨k, by omega, by omega, rfl, rfl, ?_⟩
        simp only [length_take, waiters_take]

theorem FutexMacos.wakeLoop_result (s : State) (uaddr n : Nat) (woken : Int) :
    (wakeLoop s uaddr n woken).1 = woken + min n (waiters (on uaddr) s.queue) := by
  induction n generalizing s woken with
  | zero => simp [wakeLoop]
  | succ n ih =>
      rcases hpop : pop (on uaddr) s.queue with _ | ⟨x, queue⟩
      · simp [wakeLoop, osSyncWakeAny, hpop, pop_eq_none_iff.mp hpop]
      · have hcount := waiters_pop hpop
        simp only [wakeLoop, osSyncWakeAny, hpop, ih]
        omega

theorem FutexMacos.wake_result (s : State) (uaddr val : Nat) :
    (hostFutexWake s uaddr val).1 =
      if intMax ≤ val then if waiters (on uaddr) s.queue = 0 then 0 else (intMax : Int)
      else (min val (waiters (on uaddr) s.queue) : Nat) := by
  have hall : (val = 0xFFFFFFFF ∨ intMax ≤ val) ↔ intMax ≤ val := by
    simp only [intMax]
    omega
  rw [hostFutexWake]
  simp only [hall]
  split
  · simp only [osSyncWakeAll, ← List.length_eq_zero_iff, length_take, Nat.min_self]
    rcases Nat.eq_zero_or_pos (waiters (on uaddr) s.queue) with hn | hn
    · simp [hn]
    · simp [Nat.ne_of_gt hn]
  · rw [wakeLoop_result, Int.zero_add]

theorem macosCounts_iff (s : State) (uaddr val count : Nat) :
    (count : Int) = (FutexMacos.hostFutexWake s uaddr val).1 ↔
      MacosCounts (waiters (FutexMacos.on uaddr) s.queue) val count := by
  rw [FutexMacos.wake_result, MacosCounts]
  split
  · split
    · omega
    · omega
  · omega

/-- The macOS backend returns no error from a wake. -/
theorem FutexMacos.wake_nonneg (s : State) (uaddr val : Nat) :
    0 ≤ (hostFutexWake s uaddr val).1 := by
  rw [wake_result]
  split
  · split <;> simp [intMax]
  · exact Int.natCast_nonneg _

/-! One call. -/

theorem Errno.linux_pos (e : Errno) : 1 < e.linux := by
  cases e <;> decide

theorem all_valid (timeout : Option TimeSpec) :
    timeout.all TimeSpec.valid = !timeout.any fun ts => !ts.valid := by
  cases timeout <;> simp

/-- Linux returns from a wait at once with an error, or it goes to sleep. -/
theorem Linux.wait_cases (s : State) (t uaddr : Nat) (op : BitVec 32) (val : Nat)
    (timeout : Option TimeSpec) :
    (Linux.wait s t uaddr op val timeout).1 = none ∧ Sleeps s uaddr op val timeout ∨
      (∃ e, (Linux.wait s t uaddr op val timeout).1 = some (.err e)) ∧
        ¬Sleeps s uaddr op val timeout := by
  rw [Linux.wait, Sleeps, all_valid]
  rcases hany : timeout.any fun ts => !ts.valid with _ | _
  · rcases hk : Linux.key s.mem op uaddr with _ | k
    · simp [hany]
    · rcases hread : s.mem.readable uaddr with _ | _
      · simp [hany]
      · rcases eq_or_ne (s.mem.word uaddr) val with hval | hval <;> simp [hany, hval]
  · simp [hany]

/-- Where the word cannot be read and the time is one, that is what Linux says. -/
theorem Linux.wait_unreadable {t uaddr : Nat} {op : BitVec 32} {val : Nat}
    {timeout : Option TimeSpec} (hread : s.mem.readable uaddr = false) :
    (Linux.wait s t uaddr op val timeout).1 =
      some (if timeout.all TimeSpec.valid then .err .efault else .err .einval) := by
  rw [Linux.wait, all_valid]
  rcases hany : timeout.any fun ts => !ts.valid with _ | _
  · rcases hk : Linux.key s.mem op uaddr with _ | k <;> simp [hany, hread]
  · simp [hany]

theorem wait_right_iff {t uaddr : Nat} {op : BitVec 32} {val : Nat} {timeout : Option TimeSpec}
    {v : Int} (hhost : hostFutex b s t (.wait uaddr op val timeout) = (some v, s')) :
    (Linux.wait s t uaddr op val timeout).1.map HostResult.linux = some v ↔
      Sleeps s uaddr op val timeout ∨
        b = .macos ∧ timeout.all TimeSpec.valid ∧ s.mem.readable uaddr = false := by
  have hlinux := Linux.wait_cases s t uaddr op val timeout
  cases b with
  | linux =>
      simp only [hostFutex, Prod.mk.injEq, Option.map_eq_some_iff] at hhost
      obtain ⟨⟨r, hr, hv⟩, -⟩ := hhost
      rcases hlinux with ⟨hnone, -⟩ | ⟨⟨e, he⟩, hnot⟩
      · rw [hnone] at hr
        cases hr
      · rw [he] at hr
        cases hr
        have hpos := e.linux_pos
        have hne : (HostResult.err e).linux ≠ v := by
          rw [← hv, HostResult.linux, FutexLinux.hostFutexWait, FutexLinux.syscall]
          omega
        simp [he, hne, hnot]
  | macos =>
      simp only [hostFutex, Prod.mk.injEq, Option.map_eq_some_iff] at hhost
      obtain ⟨⟨r, hr, hv⟩, -⟩ := hhost
      rw [FutexMacos.osSyncWait] at hr
      rcases hread : s.mem.readable uaddr with _ | _
      · -- both cannot read the word
        rw [hread] at hr
        cases hr
        have hnot : ¬Sleeps s uaddr op val timeout := fun h => by simp [Sleeps, hread] at h
        rw [Linux.wait_unreadable hread, ← hv]
        cases htime : timeout.all TimeSpec.valid <;>
          simp [hnot, HostResult.linux, Errno.linux, FutexMacos.hostFutexWait,
            FutexMacos.errToLinux]
      · rw [hread] at hr
        simp only [Bool.not_true, Bool.false_eq_true, if_false] at hr
        -- the host returns at once where the word differs, and with success
        split at hr
        · rename_i hval
          cases hr
          rcases hlinux with ⟨-, -, -, -, heq⟩ | ⟨⟨e, he⟩, hnot⟩
          · exact absurd heq hval
          · have hpos := e.linux_pos
            have hne : (HostResult.err e).linux ≠ v := by
              rw [← hv, HostResult.linux, FutexMacos.hostFutexWait]
              omega
            simp [he, hne, hnot]
        · cases hr

theorem HostResult.linux_neg (e : Errno) : (HostResult.err e).linux < -1 := by
  have hpos := e.linux_pos
  rw [HostResult.linux]
  omega

theorem wake_right_iff {t uaddr : Nat} {op : BitVec 32} {val : Nat} {v : Int}
    (hhost : hostFutex b s t (.wake uaddr op val) = (some v, s')) :
    (Linux.wake s uaddr op val).1.linux = v ↔ WakeGood b s uaddr op val := by
  rw [WakeGood]
  cases b with
  | linux =>
      simp only [hostFutex, Prod.mk.injEq, Option.some.injEq] at hhost
      rcases hk : Linux.key s.mem op uaddr with _ | k
      · rw [Linux.wake_fault hk] at hhost ⊢
        have hneg := HostResult.linux_neg .efault
        rw [← hhost.1, FutexLinux.hostFutexWake, FutexLinux.syscall]
        simp [hneg.ne]
      · rw [Linux.wake_result hk] at hhost ⊢
        rw [← hhost.1]
        simp [HostResult.linux, FutexLinux.hostFutexWake, FutexLinux.syscall]
  | macos =>
      simp only [hostFutex, Prod.mk.injEq, Option.some.injEq] at hhost
      rw [← hhost.1]
      rcases hk : Linux.key s.mem op uaddr with _ | k
      · have hneg := HostResult.linux_neg .efault
        have hnonneg := FutexMacos.wake_nonneg s uaddr val
        rw [Linux.wake_fault hk]
        simp only [reduceCtorEq, false_and, exists_false, iff_false]
        omega
      · rw [Linux.wake_result hk, HostResult.linux, macosCounts_iff]
        simp

theorem requeue_right_iff {t uaddr : Nat} {op : BitVec 32} {val val2 uaddr2 : Nat} {v : Int}
    (hhost : hostFutex b s t (.requeue uaddr op val val2 uaddr2) = (some v, s')) :
    (Linux.requeue s uaddr op val val2 uaddr2).1.linux = v ↔
      RequeueGood b s uaddr op val val2 uaddr2 := by
  rw [RequeueGood]
  rcases Linux.requeue_cases s uaddr op val val2 uaddr2 with
    ⟨k, hval, hval2, hk2, hk, hr⟩ | ⟨⟨e, he⟩, hnot⟩
  · cases b with
    | linux =>
        simp only [hostFutex, Prod.mk.injEq, Option.some.injEq] at hhost
        rw [← hhost.1, hr]
        exact iff_of_true rfl ⟨hval, hval2, hk2, k, hk, by simp⟩
    | macos =>
        simp only [hostFutex, FutexMacos.hostFutexRequeue, Prod.mk.injEq, Option.some.injEq]
          at hhost
        rw [← hhost.1, hr, HostResult.linux, macosCounts_iff]
        refine ⟨fun hcount => ⟨hval, hval2, hk2, k, hk, fun _ => hcount⟩, ?_⟩
        rintro ⟨-, -, -, k', hk', hcount⟩
        rw [hk] at hk'
        cases hk'
        exact hcount rfl
  · have hneg := HostResult.linux_neg e
    refine iff_of_false ?_ ?_
    · cases b with
      | linux =>
          simp only [hostFutex, Prod.mk.injEq, Option.some.injEq] at hhost
          rw [← hhost.1, he, FutexLinux.hostFutexRequeue, FutexLinux.syscall]
          exact hneg.ne
      | macos =>
          simp only [hostFutex, FutexMacos.hostFutexRequeue, Prod.mk.injEq, Option.some.injEq]
            at hhost
          have hnonneg := FutexMacos.wake_nonneg s uaddr val
          rw [← hhost.1, he]
          omega
    · rintro ⟨hval, hval2, hk2, k, hk, -⟩
      exact hnot ⟨hval, hval2, hk2, by rw [hk]; rfl⟩

theorem call_right_iff {t : Nat} {a : Args} {c : HostCall} {v : Int}
    (hcall : sysFutex box s.mem a = .ok c) (hhost : hostFutex b s t c = (some v, s')) :
    (Linux.call s t c).1.map HostResult.linux = some v ↔ Good b box s (.call t a) := by
  rw [Good, hcall]
  cases c with
  | wait uaddr op val timeout => exact wait_right_iff hhost
  | wake uaddr op val =>
      simp only [Linux.call, Option.map_some, Option.some.injEq]
      exact wake_right_iff hhost
  | requeue uaddr op val val2 uaddr2 =>
      simp only [Linux.call, Option.map_some, Option.some.injEq]
      exact requeue_right_iff hhost

/-! The end of a sleep. -/

/-- On macOS a thread may sleep where Linux rejects the time or finds no key. -/
def Due (b : Backend) (w : Sleeper) : Prop :=
  w.due = none ∨ b = .macos ∧
    (w.due = some (-Errno.einval.linux) ∨ w.due = some (-Errno.efault.linux))

/-- Nothing else is due to a sleeper. -/
def AllDue (b : Backend) (s : State) : Prop :=
  (∀ x ∈ s.queue, Due b x.2) ∧ ∀ w ∈ s.woken, Due b w

theorem AllDue.sleep (h : AllDue b s) {k : Place} {w : Sleeper} (hw : Due b w) :
    AllDue b { s with queue := s.queue ++ [(k, w)] } := by
  refine ⟨fun x hx => ?_, h.2⟩
  rcases List.mem_append.mp hx with hx | hx
  · exact h.1 x hx
  · rw [List.mem_singleton.mp hx]
    exact hw

/-- A wake only moves sleepers from the queue. -/
theorem AllDue.wake (h : AllDue b s) {woken queue : List (Place × Sleeper)}
    (hwoken : ∀ x ∈ woken, Due b x.2) (hqueue : ∀ x ∈ queue, Due b x.2) :
    AllDue b { s with queue := queue, woken := s.woken ++ woken.map Prod.snd } := by
  refine ⟨hqueue, fun w hw => ?_⟩
  rcases List.mem_append.mp hw with hw | hw
  · exact h.2 w hw
  · obtain ⟨x, hx, rfl⟩ := List.mem_map.mp hw
    exact hwoken x hx

theorem AllDue.of_take (h : AllDue b s) (p : Place → Bool) (n : Nat) :
    (∀ x ∈ (take p n s.queue).1, Due b x.2) ∧ ∀ x ∈ (take p n s.queue).2, Due b x.2 :=
  ⟨fun _ hx => h.1 _ (mem_of_mem_take hx), fun _ hx => h.1 _ (mem_of_mem_rest hx)⟩

namespace Linux

theorem wait_allDue (h : AllDue b s) (t uaddr : Nat) (op : BitVec 32) (val : Nat)
    (timeout : Option TimeSpec) : AllDue b (wait s t uaddr op val timeout).2 := by
  rw [wait]
  split
  · exact h
  · split
    · exact h
    · split
      · exact h
      · split
        · exact h
        · exact h.sleep (.inl rfl)

theorem wake_allDue (h : AllDue b s) (uaddr : Nat) (op : BitVec 32) (val : Nat) :
    AllDue b (wake s uaddr op val).2 := by
  rw [wake]
  split
  · exact h
  · obtain ⟨hwoken, hqueue⟩ := h.of_take _ _
    exact h.wake hwoken hqueue

theorem requeue_allDue (h : AllDue b s) (uaddr : Nat) (op : BitVec 32) (val val2 uaddr2 : Nat) :
    AllDue b (requeue s uaddr op val val2 uaddr2).2 := by
  rw [requeue]
  split
  · exact h
  · split
    · rename_i k k2 _ _
      obtain ⟨hwoken, hqueue⟩ := h.of_take (on k) val
      apply h.wake hwoken
      intro x hx
      rcases List.mem_append.mp hx with hx | hx
      · exact hqueue x (mem_of_mem_rest hx)
      · -- one that moved
        obtain ⟨y, hy, rfl⟩ := List.mem_map.mp hx
        exact hqueue y (mem_of_mem_take hy)
    · exact h

theorem call_allDue (h : AllDue b s) (t : Nat) (c : HostCall) :
    AllDue b (call s t c).2 := by
  cases c with
  | wait uaddr op val timeout => exact wait_allDue h t uaddr op val timeout
  | wake uaddr op val => exact wake_allDue h uaddr op val
  | requeue uaddr op val val2 uaddr2 => exact requeue_allDue h uaddr op val val2 uaddr2

end Linux

namespace FutexMacos

/-- What Linux says where macOS goes to sleep. -/
theorem osSyncWait_due {t uaddr val : Nat} {op : BitVec 32} {timeout : Option TimeSpec}
    (hread : s.mem.readable uaddr) (hval : s.mem.word uaddr = val) :
    Due .macos ⟨t, timeout.isSome,
      (Linux.wait s t uaddr op val timeout).1.map HostResult.linux⟩ := by
  rw [Due, Linux.wait]
  split
  · exact .inr ⟨rfl, .inl rfl⟩
  · split
    · exact .inr ⟨rfl, .inr rfl⟩
    · simp [hread, hval]

theorem osSyncWait_allDue (h : AllDue .macos s) (t uaddr : Nat) (op : BitVec 32) (val : Nat)
    (timeout : Option TimeSpec) : AllDue .macos (osSyncWait s t uaddr op val timeout).2 := by
  rw [osSyncWait]
  split
  · exact h
  · rename_i hread
    split
    · exact h
    · rename_i hval
      exact h.sleep (osSyncWait_due (by simpa using hread) (by simpa using hval))

theorem osSyncWakeAny_allDue (h : AllDue b s) (uaddr : Nat) :
    AllDue b (osSyncWakeAny s uaddr).2 := by
  rw [osSyncWakeAny]
  rcases hpop : pop (on uaddr) s.queue with _ | ⟨y, queue⟩
  · exact h
  · have hmem : ∀ x, x ∈ y :: queue → Due b x.2 :=
      fun x hx => h.1 x ((perm_pop hpop).mem_iff.mpr hx)
    refine ⟨fun x hx => hmem x (List.mem_cons_of_mem _ hx), fun w hw => ?_⟩
    rcases List.mem_append.mp hw with hw | hw
    · exact h.2 w hw
    · rw [List.mem_singleton.mp hw]
      exact hmem _ (List.mem_cons_self ..)

theorem wakeLoop_allDue (h : AllDue b s) (uaddr n : Nat) (woken : Int) :
    AllDue b (wakeLoop s uaddr n woken).2 := by
  induction n generalizing s woken with
  | zero => exact h
  | succ n ih =>
      have hany := osSyncWakeAny_allDue h uaddr
      rw [wakeLoop]
      rcases hres : osSyncWakeAny s uaddr with ⟨r, s'⟩
      rw [hres] at hany
      cases r with
      | ok m => exact ih hany (woken + 1)
      | err e => cases e <;> exact hany

theorem hostFutexWake_allDue (h : AllDue b s) (uaddr val : Nat) :
    AllDue b (hostFutexWake s uaddr val).2 := by
  rw [hostFutexWake]
  split
  · have hall : AllDue b (osSyncWakeAll s uaddr).2 := by
      obtain ⟨hwoken, hqueue⟩ := h.of_take (on uaddr) (waiters (on uaddr) s.queue)
      rw [osSyncWakeAll]
      split
      split
      · exact h
      · rename_i htake _
        rw [htake] at hwoken hqueue
        exact h.wake hwoken hqueue
    rcases hres : osSyncWakeAll s uaddr with ⟨r, s'⟩
    rw [hres] at hall
    cases r with
    | ok m => exact hall
    | err e => cases e <;> exact hall
  · exact wakeLoop_allDue h uaddr val 0

end FutexMacos

theorem hostFutex_allDue (h : AllDue b s) (t : Nat) (c : HostCall) :
    AllDue b (hostFutex b s t c).2 := by
  cases b with
  | linux =>
      have hcall := Linux.call_allDue h t c
      cases c <;> exact hcall
  | macos =>
      cases c with
      | wait uaddr op val timeout => exact FutexMacos.osSyncWait_allDue h t uaddr op val timeout
      | wake uaddr op val => exact FutexMacos.hostFutexWake_allDue h uaddr val
      | requeue uaddr op val val2 uaddr2 => exact FutexMacos.hostFutexWake_allDue h uaddr val

theorem step_allDue {l : Label × Option Returned} (h : AllDue b s) (hstep : Step b box s l s') :
    AllDue b s' := by
  cases hstep with
  | store mem => exact h
  | reject hcall => exact h
  | @sleep _ t _ c hawake htime hcall hhost =>
      have hdue := hostFutex_allDue h t c
      rw [hhost] at hdue
      exact hdue
  | @ret _ t _ c _ hawake htime hcall hhost =>
      have hdue := hostFutex_allDue h t c
      rw [hhost] at hdue
      exact hdue
  | wakeup hw => exact ⟨h.1, fun w hw => h.2 w (List.mem_of_mem_erase hw)⟩
  | timeout hw htimed => exact ⟨fun x hx => h.1 x (List.mem_of_mem_erase hx), h.2⟩
  | interrupt hw => exact ⟨fun x hx => h.1 x (List.mem_of_mem_erase hx), h.2⟩

theorem reaches_allDue {mem : Memory}
    (h : Reaches (Step b box) anyStep (State.init mem) s) : AllDue b s :=
  h.invariant ⟨by simp [State.init], by simp [State.init]⟩ (fun _ _ _ hs _ => step_allDue hs)

theorem waitEnd_right_iff {w : Sleeper} {r : HostResult} (hw : Due b w)
    (heinval : hostFutexWaitEnd b r ≠ -Errno.einval.linux)
    (hefault : hostFutexWaitEnd b r ≠ -Errno.efault.linux) :
    (waitEnd b w r).Right ↔ r.linux = hostFutexWaitEnd b r ∧ w.due = none := by
  rw [Returned.Right, waitEnd, Option.some.injEq]
  rcases hw with hdue | ⟨-, hdue | hdue⟩
  · simp [hdue]
  · simp [hdue, heinval.symm]
  · simp [hdue, hefault.symm]

/-- In every run and on both backends, a call that returns gives the sandbox what
Linux returns exactly when the step that makes it return meets the condition. -/
theorem returned_right_iff {mem : Memory} {l : Label} {r : Returned}
    (h : Reaches (Step b box) anyStep (State.init mem) s) (hstep : Step b box s (l, some r) s') :
    r.Right ↔ Good b box s l := by
  obtain ⟨hqueue, hwoken⟩ := reaches_allDue h
  cases hstep with
  | ret hawake htime hcall hhost => exact call_right_iff hcall hhost
  | @wakeup w hw =>
      rw [waitEnd_right_iff (hwoken w hw) (by cases b <;> decide) (by cases b <;> decide), Good]
      cases b with
      | linux =>
          have hdue : w.due = none := (hwoken w hw).resolve_right (fun h => nomatch h.1)
          simp [hdue, HostResult.linux, hostFutexWaitEnd, FutexLinux.hostFutexWait,
            FutexLinux.syscall]
      | macos => simp [HostResult.linux, hostFutexWaitEnd, FutexMacos.hostFutexWait]
  | @timeout k w hw htimed =>
      rw [waitEnd_right_iff (hqueue _ hw) (by cases b <;> decide) (by cases b <;> decide), Good]
      cases b with
      | linux =>
          simp [HostResult.linux, Errno.linux, hostFutexWaitEnd, FutexLinux.hostFutexWait,
            FutexLinux.syscall]
      | macos =>
          simp [HostResult.linux, hostFutexWaitEnd, FutexMacos.hostFutexWait,
            FutexMacos.errToLinux]
  | @interrupt k w hw =>
      rw [waitEnd_right_iff (hqueue _ hw) (by cases b <;> decide) (by cases b <;> decide), Good]
      cases b with
      | linux =>
          simp [HostResult.linux, Errno.linux, hostFutexWaitEnd, FutexLinux.hostFutexWait,
            FutexLinux.syscall]
      | macos =>
          simp [HostResult.linux, Errno.linux, hostFutexWaitEnd, FutexMacos.hostFutexWait,
            FutexMacos.errToLinux]

/-- A wait on the word at 0, which holds 0. -/
def waitArgs (val : Nat) : Args := ⟨0, 0, val, 0, 0⟩

def zeroMemory : Memory := ⟨fun _ => 0, fun _ => ⟨0, 0⟩, fun _ => true, some⟩

/-- A wake on the Linux backend, where nothing waits. -/
theorem wake_right : Returned.Right ⟨0, some 0⟩ ↔
    Good .linux ⟨0, 4096⟩ (State.init zeroMemory) (.call 0 ⟨0, 1, 1, 0, 0⟩) :=
  returned_right_iff (Reaches.refl _)
    (@Step.ret _ _ (State.init zeroMemory) (State.init zeroMemory) _ _ (.wake 0 1 1) _
      ⟨by simp [State.init], by simp [State.init]⟩ (by simp [TimeReadable]) rfl rfl)

/-- The word differs: the sandbox gets -1, which is `EPERM`, for `EAGAIN`. -/
theorem wait_differs_not_right : ∃ r s', Step .linux ⟨0, 4096⟩ (State.init zeroMemory)
    (.call 0 (waitArgs 1), some r) s' ∧ ¬r.Right :=
  ⟨⟨-1, some (-11)⟩, State.init zeroMemory,
    .ret (c := .wait 0 0 1 none) ⟨by simp [State.init], by simp [State.init]⟩
      (by simp [TimeReadable, waitArgs]) rfl rfl, by decide⟩

end LfiRuntime.Futex
