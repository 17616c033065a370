import LfiRuntime.Linux.ProcThreads

/-!
What every thread contributes to the counters, the locks and the
`LFILinuxThread`s of a process: a number read off where the thread is. A step
changes it as it changes the shared fields.
-/

namespace LfiRuntime.ProcThreads

open LfiRuntime.Interleaving

/-! What a thread contributes. -/

/-- It is counted in `attached_threads`. -/
@[simp] def Site.isAttached : Site → Nat
  | .faking _ _ | .attached _ | .destroying _ => 1
  | .main _ | .running _ => 0

@[simp] def Pc.attached : Pc → Nat
  | .inBox c _ | .exitRemove c | .exitUnlock c | .returned c => c.isAttached
  | .cloneLock | .creating _ | .created _ | .detachLock | .detachDec => 1
  | _ => 0

/-- It is counted in `active_threads`. -/
@[simp] def Site.isActive : Site → Nat
  | .running _ => 1
  | _ => 0

/-- It has counted the thread that it starts. -/
@[simp] def SpawnPc.counted : SpawnPc → Nat
  | .addUnlock | .create | .failLock | .fail => 1
  | _ => 0

@[simp] def Pc.active : Pc → Nat
  | .inBox c (some (_, s)) => c.isActive + s.counted
  | .inBox c none | .exitRemove c | .exitUnlock c | .returned c => c.isActive
  | .tail _ => 1
  | _ => 0

/-- It holds `lk_proc`. -/
@[simp] def Pc.procLock : Pc → Nat
  | .detachDec | .detachUnlock _ => 1
  | _ => 0

@[simp] def SpawnPc.threadsLock : SpawnPc → Nat
  | .add | .addUnlock | .fail | .failUnlock => 1
  | _ => 0

@[simp] def Wait.threadsLock : Wait → Nat
  | .check => 1
  | _ => 0

/-- It holds `lk_threads`. -/
@[simp] def Pc.threadsLock : Pc → Nat
  | .inBox _ (some (_, s)) => s.threadsLock
  | .exitRemove _ | .exitUnlock _ | .tail _ | .tailUnlock => 1
  | .detachWait w => w.threadsLock
  | _ => 0

@[simp] def Wait.isAsleep : Wait → Nat
  | .asleep => 1
  | _ => 0

@[simp] def Pc.asleep : Pc → Nat
  | .detachWait w => w.isAsleep
  | _ => 0

/-- It is going to destroy the process. -/
@[simp] def Pc.finishing : Pc → Nat
  | .detachUnlock true | .detachWait _ | .detachDestroy => 1
  | _ => 0

/-- It is going to, and has released `lk_proc`. -/
@[simp] def Pc.waiting : Pc → Nat
  | .detachWait _ | .detachDestroy => 1
  | _ => 0

/-- It is going to, and has seen `active_threads` at zero. -/
@[simp] def Pc.destroying : Pc → Nat
  | .detachDestroy => 1
  | _ => 0

def ownsId (n : Option ThreadId) (o : ThreadId) : Nat := if n = some o then 1 else 0

/-- How many of the `LFILinuxThread`s it has to free are `o`. In `faking` the
thread that `new_ctx` named is already lost. -/
@[simp] def Pc.owns (o : ThreadId) : Pc → Nat
  | .inBox c none | .exitRemove c | .exitUnlock c | .returned c => ownsId (some c.thread) o
  | .inBox c (some (_, .started)) => ownsId (some c.thread) o
  | .inBox c (some (p, _)) => ownsId (some c.thread) o + ownsId (some p) o
  | .creating n | .created n | .attachFailed n => ownsId n o
  | .tail p => ownsId (some p) o
  | _ => 0

@[simp] def Site.lists (o : ThreadId) : Site → Nat
  | .running p => ownsId (some p) o
  | _ => 0

/-- How many of them may be on the list of the process. -/
@[simp] def Pc.lists (o : ThreadId) : Pc → Nat
  | .inBox c (some (p, s)) => c.lists o + s.counted * ownsId (some p) o
  | .inBox c none | .exitRemove c | .exitUnlock c | .returned c => c.lists o
  | .tail p => ownsId (some p) o
  | _ => 0

attribute [simp] Site.early Pc.early

namespace FreePc

@[simp] def procLock : FreePc → Nat
  | .wait _ | .decide | .unlock _ => 1
  | _ => 0

@[simp] def threadsLock : FreePc → Nat
  | .wait w => w.threadsLock
  | _ => 0

@[simp] def asleep : FreePc → Nat
  | .wait w => w.isAsleep
  | _ => 0

/-- The call may have left the process to the last detach. -/
@[simp] def defers : FreePc → Bool
  | .unlock false | .ret | .returned => true
  | _ => false

/-- The call is done with the process. -/
@[simp] def isDone : FreePc → Nat
  | .ret | .returned => 1
  | _ => 0

/-- The call is going to destroy the process. -/
@[simp] def destroying : FreePc → Nat
  | .unlock true | .destroy => 1
  | _ => 0

/-- It is going to, and has released `lk_proc`. -/
@[simp] def unlocked : FreePc → Nat
  | .destroy => 1
  | _ => 0

end FreePc

/-! What a step changes. -/

attribute [simp] Shared.threadClone Shared.listAdd Shared.listRemove Shared.deactivate Site.thread

@[simp] theorem ownsId_none (o : ThreadId) : ownsId none o = 0 := rfl

@[simp] theorem threadFree_eq (sh : Shared) (p : ThreadId) :
    sh.threadFree p = { sh with frees := fun o => sh.frees o + ownsId (some p) o } := by
  simp only [Shared.threadFree, Shared.mk.injEq, true_and, and_true]
  funext o
  rcases eq_or_ne o p with rfl | ho
  · simp [ownsId]
  · simp [ownsId, ho, ho.symm]

theorem count_cons_eq (o p : ThreadId) (l : List ThreadId) :
    (p :: l).count o = l.count o + ownsId (some p) o := by
  rw [List.count_cons, ownsId]
  simp

theorem count_erase_eq (o p : ThreadId) (l : List ThreadId) :
    (l.erase p).count o = l.count o - ownsId (some p) o := by
  rw [List.count_erase, ownsId]
  simp

theorem foldl_threadFree (l : List ThreadId) (sh : Shared) :
    l.foldl Shared.threadFree sh = { sh with frees := fun o => sh.frees o + l.count o } := by
  induction l generalizing sh with
  | nil => rfl
  | cons p l ih =>
      rw [List.foldl_cons, ih, threadFree_eq]
      simp only [Shared.mk.injEq, true_and, and_true]
      funext o
      rw [count_cons_eq]
      omega

/-- `proc_destroy` frees the listed threads and that of `clone_ctx`. -/
theorem procDestroy_eq (sh : Shared) :
    sh.procDestroy = { sh with
      frees := fun o => sh.frees o + sh.threads.count o + ownsId (some sh.cloneCtx) o
      destroys := sh.destroys + 1 } := by
  rw [Shared.procDestroy, foldl_threadFree, threadFree_eq]

section

variable {sh sh' : Shared} {pc pc' : Pc} {e : Event}

theorem attached_act (h : Act sh pc e sh' pc') :
    sh'.attachedThreads + pc.attached = sh.attachedThreads + pc'.attached := by
  cases h with
  | detachWait hwait => cases hwait <;> rfl
  | detachUnlock d => cases d <;> rfl
  | detachDestroy => rw [procDestroy_eq]; rfl
  | _ => simp

theorem active_act (h : Act sh pc e sh' pc') :
    sh'.activeThreads + pc.active = sh.activeThreads + pc'.active := by
  cases h with
  | detachWait hwait => cases hwait <;> rfl
  | detachUnlock d => cases d <;> rfl
  | detachDestroy => rw [procDestroy_eq]; rfl
  | add => simp; omega
  | _ => simp

theorem procLock_act (h : Act sh pc e sh' pc') (hlk : pc.procLock ≤ sh.lkProc.toNat) :
    sh'.lkProc.toNat + pc.procLock = sh.lkProc.toNat + pc'.procLock := by
  cases h with
  | detachWait hwait => cases hwait <;> rfl
  | detachUnlock d => cases d <;> cases hl : sh.lkProc <;> simp_all
  | detachDestroy => rw [procDestroy_eq]; rfl
  | _ => simp [*]

theorem threadsLock_act (h : Act sh pc e sh' pc') (hlk : pc.threadsLock ≤ sh.lkThreads.toNat) :
    sh'.lkThreads.toNat + pc.threadsLock = sh.lkThreads.toNat + pc'.threadsLock := by
  cases h with
  | detachWait hwait => cases hwait <;> cases hl : sh.lkThreads <;> simp_all
  | detachUnlock d => cases d <;> simp
  | detachDestroy => rw [procDestroy_eq]; rfl
  | _ => cases hl : sh.lkThreads <;> simp_all

theorem early_act (h : Act sh pc e sh' pc') : pc'.early ≤ pc.early := by
  cases h with
  | detachUnlock d => cases d <;> simp
  | _ => simp

theorem asleep_act (h : Act sh pc e sh' pc') :
    sh'.condThreads.sleepers + sh'.condThreads.wakeups + pc.asleep =
      sh.condThreads.sleepers + sh.condThreads.wakeups + pc'.asleep := by
  cases h with
  | detachWait hwait =>
      cases hwait with
      | lock => rfl
      | sleep => simp [Cond.wait]; omega
      | wake hwake => simp [← hwake.count.1]
  | detachUnlock d => cases d <;> rfl
  | detachDestroy => rw [procDestroy_eq]; rfl
  | fail => simp [Cond.signal_count]
  | tail => simp [Cond.signal_count]
  | _ => simp

/-- A thread falls asleep only while others run, and the end of one of them is
signalled. -/
theorem sleepers_act (h : Act sh pc e sh' pc') :
    (sh'.activeThreads = sh.activeThreads ∧
        (sh'.condThreads.sleepers ≤ sh.condThreads.sleepers ∨ sh'.activeThreads ≠ 0)) ∨
      sh'.activeThreads = sh.activeThreads + 1 ∨
      sh'.condThreads.sleepers = sh.condThreads.sleepers - 1 := by
  cases h with
  | detachWait hwait =>
      cases hwait with
      | lock => simp
      | sleep hactive => exact .inl ⟨rfl, .inr hactive⟩
      | wake hwake => exact .inl ⟨rfl, .inl hwake.count.2⟩
  | detachDestroy => rw [procDestroy_eq]; simp
  | fail => simp [Cond.sleepers_signal]
  | tail => simp [Cond.sleepers_signal]
  | _ => simp

theorem free_act (h : Act sh pc e sh' pc') :
    sh'.free = sh.free ∧ sh'.pendingFree = sh.pendingFree ∧ sh'.cloneCtx = sh.cloneCtx := by
  cases h with
  | detachWait hwait => cases hwait <;> simp
  | detachDestroy => rw [procDestroy_eq]; simp
  | _ => simp

/-- A detach that takes `attached_threads` to zero after the call of
`lfi_proc_free` is going to destroy the process. -/
theorem finishing_act (h : Act sh pc e sh' pc') (hearly : sh.pendingFree = true → pc.early = 0) :
    pc'.finishing + sh'.destroys = pc.finishing + sh.destroys +
      if sh.pendingFree = true ∧ sh.attachedThreads ≠ 0 ∧ sh'.attachedThreads = 0 then 1 else 0 := by
  cases h with
  | detachWait hwait => cases hwait <;> simp
  | detachUnlock d => cases d <;> simp
  | detachDestroy => rw [procDestroy_eq]; simp; omega
  | attachFailed n => simp_all
  | detachDec =>
      rcases eq_or_ne sh.attachedThreads 1 with hone | hne
      · cases hp : sh.pendingFree
        · simp
        · simp [hone]
          omega
      · have hdec : decide (sh.attachedThreads - 1 = 0) = false := decide_eq_false (by omega)
        rw [hdec, if_neg (by simp only; omega)]
        simp
  | _ => simp

/-- Who changes `attached_threads`. -/
theorem attachedThreads_act (h : Act sh pc e sh' pc') :
    sh'.attachedThreads = sh.attachedThreads ∨
      sh'.attachedThreads = sh.attachedThreads - 1 ∧ (pc.procLock = 1 ∨ pc.early = 1) := by
  cases h with
  | detachWait hwait => cases hwait <;> simp
  | detachDestroy => rw [procDestroy_eq]; simp
  | _ => simp

theorem destroys_act (h : Act sh pc e sh' pc') : sh.destroys ≤ sh'.destroys := by
  cases h with
  | detachWait hwait => cases hwait <;> simp
  | detachDestroy => rw [procDestroy_eq]; simp
  | _ => simp

/-- Who takes `lk_proc`. -/
theorem lkProc_act (h : Act sh pc e sh' pc') :
    sh'.lkProc = false ∨ sh'.lkProc = sh.lkProc ∨ pc.attached = 1 := by
  cases h with
  | detachWait hwait => cases hwait <;> simp
  | detachDestroy => rw [procDestroy_eq]; simp
  | _ => simp

/-- A thread that no counter counts is past its last use of them. -/
def Pc.isLate : Pc → Bool
  | .mainFreed | .detachUnlock _ | .detachWait _ | .detachDestroy | .detachRet | .detached
  | .tailUnlock | .tailRet | .ended => true
  | _ => false

theorem isLate_of_uncounted (hattached : pc.attached = 0) (hactive : pc.active = 0)
    (hearly : pc.early = 0) : pc.isLate = true := by
  cases pc with
  | inBox c call => cases c <;> cases call <;> simp_all
  | exitRemove c => cases c <;> simp_all
  | exitUnlock c => cases c <;> simp_all
  | returned c => cases c <;> simp_all
  | _ => simp_all [Pc.isLate]

theorem late_act (h : Act sh pc e sh' pc') (hlate : pc.isLate = true) :
    sh'.activeThreads = sh.activeThreads ∧
      (sh'.lkThreads = false ∨ sh'.lkThreads = sh.lkThreads ∨
        pc.waiting = 1 ∧ pc.destroying = 0) := by
  cases h with
  | detachWait hwait => cases hwait <;> simp
  | detachDestroy => rw [procDestroy_eq]; simp
  | _ => simp_all [Pc.isLate]

theorem waiting_act (h : Act sh pc e sh' pc') :
    pc'.waiting + sh'.destroys = pc.waiting + sh.destroys ∨
      pc.finishing = 1 ∧ sh'.lkProc = false ∧ sh'.attachedThreads = sh.attachedThreads := by
  cases h with
  | detachWait hwait => cases hwait <;> simp
  | detachUnlock d => cases d <;> simp
  | detachDestroy => rw [procDestroy_eq]; simp; omega
  | _ => simp

theorem destroying_act (h : Act sh pc e sh' pc') :
    pc'.destroying + sh'.destroys = pc.destroying + sh.destroys ∨
      pc.waiting = 1 ∧ sh'.lkThreads = false ∧ sh'.activeThreads = 0 := by
  cases h with
  | detachWait hwait => cases hwait <;> simp
  | detachUnlock d => cases d <;> simp
  | detachDestroy => rw [procDestroy_eq]; simp; omega
  | _ => simp [*]

/-- What `proc_destroy` still has to free besides the list. -/
def procOwns (cloneCtx o : ThreadId) : Nat → Nat
  | 0 => ownsId (some cloneCtx) o
  | _ + 1 => 0

/-- Whether `o` has been allocated. -/
def live (o allocs : Nat) : Nat := if o < allocs then 1 else 0

theorem live_succ (o allocs : Nat) :
    live o (allocs + 1) = live o allocs + ownsId (some allocs) o := by
  simp only [live, ownsId, Option.some.injEq]
  rcases Nat.lt_trichotomy o allocs with ho | rfl | ho
  · rw [if_pos (by omega), if_pos ho, if_neg (Nat.ne_of_gt ho)]
  · simp
  · rw [if_neg (by omega), if_neg (by omega), if_neg (Nat.ne_of_lt ho)]

/-- Every `LFILinuxThread` stays freed, owned by a thread, or owned by the
process; a second clone on `clone_ctx` loses the first. -/
theorem owns_act (h : Act sh pc e sh' pc') (o : ThreadId)
    (hdestroy : pc.destroying = 1 → sh.threads = [] ∧ sh.destroys = 0) :
    sh'.frees o + pc'.owns o + procOwns sh'.cloneCtx o sh'.destroys + live o sh.allocs ≤
        sh.frees o + pc.owns o + procOwns sh.cloneCtx o sh.destroys + live o sh'.allocs ∧
      ((∀ p, e ≠ .fakeClone (some p)) →
        sh'.frees o + pc'.owns o + procOwns sh'.cloneCtx o sh'.destroys + live o sh.allocs =
          sh.frees o + pc.owns o + procOwns sh.cloneCtx o sh.destroys + live o sh'.allocs) := by
  cases h with
  | detachWait hwait => cases hwait <;> simp
  | detachUnlock d => cases d <;> simp
  | detachDestroy => rw [procDestroy_eq]; simp_all [procOwns]
  | clone => simp [live_succ]; omega
  | fakeClone n =>
      refine ⟨?_, fun hn => ?_⟩
      · simp [live_succ]
        omega
      · cases n with
        | none => simp [live_succ]; omega
        | some p => exact absurd rfl (hn p)
  | _ => simp <;> try omega

theorem lists_act (h : Act sh pc e sh' pc') (o : ThreadId) (rest : Nat)
    (hlist : sh.threads.count o ≤ pc.lists o + rest) :
    sh'.threads.count o ≤ pc'.lists o + rest := by
  cases h with
  | detachWait hwait => cases hwait <;> simp_all
  | detachUnlock d => cases d <;> simp_all
  | detachDestroy => rw [procDestroy_eq]; simp_all
  | add => simp [count_cons_eq] at hlist ⊢; omega
  | fail => simp [count_erase_eq] at hlist ⊢; omega
  | exitRemove => simp [count_erase_eq] at hlist ⊢; omega
  | tail => simp [count_erase_eq] at hlist ⊢; omega
  | _ => simp_all

/-- What a late thread still does that holds nothing and destroys nothing. -/
theorem ret_act (h : Act sh pc e sh' pc') (hlate : pc.isLate = true) (hproc : pc.procLock = 0)
    (hthreads : pc.threadsLock = 0) (hfinish : pc.finishing = 0) : e = .ret := by
  cases h with
  | detachWait hwait => cases hwait <;> simp_all
  | _ => simp_all [Pc.isLate]

end

section

variable {sh sh' : Shared} {f f' : FreePc} {e : Event}

theorem frame_free (h : FreeAct sh f e sh' f') :
    sh'.attachedThreads = sh.attachedThreads ∧ sh'.activeThreads = sh.activeThreads ∧
      sh'.threads = sh.threads ∧ sh'.allocs = sh.allocs ∧ sh'.cloneCtx = sh.cloneCtx := by
  cases h with
  | wait hwait => cases hwait <;> simp
  | destroy => rw [procDestroy_eq]; simp
  | _ => simp

theorem procLock_free (h : FreeAct sh f e sh' f') (hlk : f.procLock ≤ sh.lkProc.toNat) :
    sh'.lkProc.toNat + f.procLock = sh.lkProc.toNat + f'.procLock := by
  cases h with
  | wait hwait => cases hwait <;> rfl
  | unlock d => cases d <;> cases hl : sh.lkProc <;> simp_all
  | destroy => rw [procDestroy_eq]; rfl
  | _ => simp [*]

theorem threadsLock_free (h : FreeAct sh f e sh' f') (hlk : f.threadsLock ≤ sh.lkThreads.toNat) :
    sh'.lkThreads.toNat + f.threadsLock = sh.lkThreads.toNat + f'.threadsLock := by
  cases h with
  | wait hwait => cases hwait <;> cases hl : sh.lkThreads <;> simp_all
  | pass => cases hl : sh.lkThreads <;> simp_all
  | unlock d => cases d <;> simp
  | destroy => rw [procDestroy_eq]; rfl
  | _ => simp

theorem asleep_free (h : FreeAct sh f e sh' f') :
    sh'.condThreads.sleepers + sh'.condThreads.wakeups + f.asleep =
      sh.condThreads.sleepers + sh.condThreads.wakeups + f'.asleep := by
  cases h with
  | wait hwait =>
      cases hwait with
      | lock => rfl
      | sleep => simp [Cond.wait]; omega
      | wake hwake => simp [← hwake.count.1]
  | unlock d => cases d <;> rfl
  | destroy => rw [procDestroy_eq]; rfl
  | _ => simp

theorem sleepers_free (h : FreeAct sh f e sh' f') :
    sh'.condThreads.sleepers ≤ sh.condThreads.sleepers ∨ sh'.activeThreads ≠ 0 := by
  cases h with
  | wait hwait =>
      cases hwait with
      | lock => simp
      | sleep hactive => exact .inr hactive
      | wake hwake => exact .inl hwake.count.2
  | destroy => rw [procDestroy_eq]; simp
  | _ => simp

theorem owns_free (h : FreeAct sh f e sh' f') (o : ThreadId)
    (hdestroy : 0 < f.destroying → sh.threads = [] ∧ sh.destroys = 0) :
    sh'.frees o + procOwns sh'.cloneCtx o sh'.destroys =
      sh.frees o + procOwns sh.cloneCtx o sh.destroys := by
  cases h with
  | wait hwait => cases hwait <;> rfl
  | destroy => rw [procDestroy_eq]; simp_all [procOwns]
  | _ => rfl

end

end LfiRuntime.ProcThreads
