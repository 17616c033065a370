import Mathlib.Logic.Function.Basic
import LfiRuntime.Lib.Interleaving
import LfiRuntime.Lib.Runs

/-!
The threads of one `LFILinuxProc` and the end of the process: host threads that
attach through the clone callback and detach, threads that `sys_clone` starts,
and one call of `lfi_proc_free`. Every access to a lock or to a shared field is
a step of its own, and the steps of all threads interleave.
-/

namespace LfiRuntime.ProcThreads

open LfiRuntime.Interleaving

/-- Names an `LFILinuxThread`. -/
abbrev ThreadId := Nat

/-- Where a thread is in the loop that waits until `active_threads` is zero. -/
inductive Wait
  | lock
  | check
  | asleep
  deriving DecidableEq, Repr

/-- Where the call of `lfi_proc_free` is. `destroy` says which way it went after
it looked at `attached_threads`. -/
inductive FreePc
  | idle
  | lockProc
  | wait (w : Wait)
  | decide
  | unlock (destroy : Bool)
  | destroy
  | ret
  | returned
  deriving DecidableEq, Repr

/-- The fields of `struct LFILinuxProc` that the threads share, with the
`LFILinuxThread`s allocated so far and how often each was freed. -/
structure Shared where
  attachedThreads : Int
  activeThreads : Int
  pendingFree : Bool
  lkProc : Bool
  lkThreads : Bool
  lkClone : Bool
  condThreads : Cond
  threads : List ThreadId
  cloneCtx : ThreadId
  allocs : Nat
  frees : ThreadId → Nat
  destroys : Nat
  aborted : Bool
  free : FreePc

namespace Shared

/-- `thread_clone`: the new thread is named by the number of those before it. -/
def threadClone (sh : Shared) : Shared := { sh with allocs := sh.allocs + 1 }

/-- `lfi_thread_free`. -/
def threadFree (sh : Shared) (o : ThreadId) : Shared :=
  { sh with frees := Function.update sh.frees o (sh.frees o + 1) }

/-- `list_make_first` and the count beside it. -/
def listAdd (sh : Shared) (o : ThreadId) : Shared :=
  { sh with threads := o :: sh.threads, activeThreads := sh.activeThreads + 1 }

/-- `list_remove`, which does nothing to a thread that is not on the list. -/
def listRemove (sh : Shared) (o : ThreadId) : Shared :=
  { sh with threads := sh.threads.erase o }

/-- One thread fewer runs. -/
def deactivate (sh : Shared) : Shared :=
  { sh with activeThreads := sh.activeThreads - 1, condThreads := sh.condThreads.signal }

/-- `proc_destroy`. -/
def procDestroy (sh : Shared) : Shared :=
  { (sh.threads.foldl threadFree sh).threadFree sh.cloneCtx with destroys := sh.destroys + 1 }

end Shared

/-- On whose behalf sandbox code runs, with the `LFILinuxThread` it runs as. In
`faking` it is a clone made on `clone_ctx`, and `newCtx` is what `new_ctx` was
before. -/
inductive Site
  | main (o : ThreadId)
  | faking (newCtx : Option ThreadId) (o : ThreadId)
  | attached (o : ThreadId)
  | destroying (o : ThreadId)
  | running (o : ThreadId)
  deriving DecidableEq, Repr

/-- Where a thread is in `spawn`, once it has allocated the new thread. -/
inductive SpawnPc
  | cloned
  | add
  | addUnlock
  | create
  | failLock
  | fail
  | failUnlock
  | failFree
  | started
  deriving DecidableEq, Repr

/-- Where a host thread, or a thread that `sys_clone` started, is. -/
inductive Pc
  | inBox (site : Site) (call : Option (ThreadId × SpawnPc))
  | exitRemove (site : Site)
  | exitUnlock (site : Site)
  | returned (site : Site)
  | mainFreed
  | cloneLock
  | creating (newCtx : Option ThreadId)
  | created (newCtx : Option ThreadId)
  | attachFailed (newCtx : Option ThreadId)
  | detachLock
  | detachDec
  | detachUnlock (destroy : Bool)
  | detachWait (w : Wait)
  | detachDestroy
  | detachRet
  | detached
  | tail (o : ThreadId)
  | tailUnlock
  | tailRet
  | ended
  deriving DecidableEq, Repr

/-- What a step does, as far as the theorems tell steps apart: it uses the
process, it clones on `clone_ctx` where `new_ctx` is `newCtx`, it destroys the
process, or it only returns to its caller. -/
inductive Event
  | use
  | fakeClone (newCtx : Option ThreadId)
  | destroy
  | ret
  deriving DecidableEq, Repr

/-- The owner is not `LFI_THREAD_HOST`, so `thread_exit` unwinds `lfi_ctx_run`. -/
def Site.unwinds : Site → Bool
  | .main _ | .faking _ _ | .running _ => true
  | .attached _ | .destroying _ => false

def Site.thread : Site → ThreadId
  | .main o | .faking _ o | .attached o | .destroying o | .running o => o

/-- The loop `while (active_threads != 0) pthread_cond_wait(..)`. -/
inductive WaitAct (sh : Shared) : Wait → Shared → Wait → Prop
  | lock (hlk : sh.lkThreads = false) : WaitAct sh .lock { sh with lkThreads := true } .check
  | sleep (hactive : sh.activeThreads ≠ 0) :
      WaitAct sh .check { sh with lkThreads := false, condThreads := sh.condThreads.wait } .asleep
  | wake {c : Cond} (hwake : sh.condThreads.Wakes c) :
      WaitAct sh .asleep { sh with condThreads := c } .lock

/-- One step of a thread. -/
inductive Act (sh : Shared) : Pc → Event → Shared → Pc → Prop
  -- sandbox code, and the system calls it makes
  | run (c : Site) : Act sh (.inBox c none) .use sh (.inBox c none)
  | clone (c : Site) :
      Act sh (.inBox c none) .use sh.threadClone (.inBox c (some (sh.allocs, .cloned)))
  | noMemory (c : Site) (o : ThreadId) :
      Act sh (.inBox c (some (o, .cloned))) .use (sh.threadFree o) (.inBox c none)
  | addLock (c : Site) (o : ThreadId) (hlk : sh.lkThreads = false) :
      Act sh (.inBox c (some (o, .cloned))) .use { sh with lkThreads := true }
        (.inBox c (some (o, .add)))
  | add (c : Site) (o : ThreadId) :
      Act sh (.inBox c (some (o, .add))) .use (sh.listAdd o) (.inBox c (some (o, .addUnlock)))
  | addUnlock (c : Site) (o : ThreadId) :
      Act sh (.inBox c (some (o, .addUnlock))) .use { sh with lkThreads := false }
        (.inBox c (some (o, .create)))
  | createFailed (c : Site) (o : ThreadId) :
      Act sh (.inBox c (some (o, .create))) .use sh (.inBox c (some (o, .failLock)))
  | failLock (c : Site) (o : ThreadId) (hlk : sh.lkThreads = false) :
      Act sh (.inBox c (some (o, .failLock))) .use { sh with lkThreads := true }
        (.inBox c (some (o, .fail)))
  | fail (c : Site) (o : ThreadId) :
      Act sh (.inBox c (some (o, .fail))) .use (sh.listRemove o).deactivate
        (.inBox c (some (o, .failUnlock)))
  | failUnlock (c : Site) (o : ThreadId) :
      Act sh (.inBox c (some (o, .failUnlock))) .use { sh with lkThreads := false }
        (.inBox c (some (o, .failFree)))
  | failFree (c : Site) (o : ThreadId) :
      Act sh (.inBox c (some (o, .failFree))) .use (sh.threadFree o) (.inBox c none)
  | cloneReturn (c : Site) (o : ThreadId) :
      Act sh (.inBox c (some (o, .started))) .use sh (.inBox c none)
  | exitLock (c : Site) (hc : c.unwinds = true) (hlk : sh.lkThreads = false) :
      Act sh (.inBox c none) .use { sh with lkThreads := true } (.exitRemove c)
  | exitRemove (c : Site) :
      Act sh (.exitRemove c) .use (sh.listRemove c.thread) (.exitUnlock c)
  | exitUnlock (c : Site) :
      Act sh (.exitUnlock c) .use { sh with lkThreads := false } (.returned c)
  | leave (c : Site) (hc : c.unwinds = true) : Act sh (.inBox c none) .use sh (.returned c)
  -- the main thread, until the embedder frees it
  | enterMain (o : ThreadId) : Act sh (.returned (.main o)) .use sh (.inBox (.main o) none)
  | freeMain (o : ThreadId) : Act sh (.returned (.main o)) .use (sh.threadFree o) .mainFreed
  -- `threadspawn`, once the sandbox code has returned
  | tailLock (o : ThreadId) (hlk : sh.lkThreads = false) :
      Act sh (.returned (.running o)) .use { sh with lkThreads := true } (.tail o)
  | tail (o : ThreadId) :
      Act sh (.tail o) .use ((sh.listRemove o).threadFree o).deactivate .tailUnlock
  | tailUnlock : Act sh .tailUnlock .use { sh with lkThreads := false } .tailRet
  | tailRet : Act sh .tailRet .ret sh .ended
  -- `lfi_linux_clone_cb`, and the clones that `thread_create` makes on `clone_ctx`
  | cloneLock (hlk : sh.lkClone = false) :
      Act sh .cloneLock .use { sh with lkClone := true } (.creating none)
  | fakeClone (n : Option ThreadId) :
      Act sh (.creating n) (.fakeClone n) sh.threadClone (.inBox (.faking n sh.allocs) none)
  | fakeDone (n : Option ThreadId) (o : ThreadId) :
      Act sh (.returned (.faking n o)) .use sh (.creating (some o))
  | cloneUnlock (n : Option ThreadId) :
      Act sh (.creating n) .use { sh with lkClone := false } (.created n)
  | attachFailed (n : Option ThreadId) :
      Act sh (.created n) .use
        { sh with attachedThreads := sh.attachedThreads - 1, aborted := true } (.attachFailed n)
  | attached (o : ThreadId) : Act sh (.created (some o)) .use sh (.inBox (.attached o) none)
  -- `detach_ctx`
  | detach (o : ThreadId) :
      Act sh (.inBox (.attached o) none) .use sh (.inBox (.destroying o) none)
  | detachFree (o : ThreadId) :
      Act sh (.inBox (.destroying o) none) .use (sh.threadFree o) .detachLock
  | detachLock (hlk : sh.lkProc = false) :
      Act sh .detachLock .use { sh with lkProc := true } .detachDec
  | detachDec :
      Act sh .detachDec .use { sh with attachedThreads := sh.attachedThreads - 1 }
        (.detachUnlock (decide (sh.attachedThreads - 1 = 0) && sh.pendingFree))
  | detachUnlock (d : Bool) :
      Act sh (.detachUnlock d) .use { sh with lkProc := false }
        (if d then .detachWait .lock else .detachRet)
  | detachWait {w w' : Wait} {sh' : Shared} (hwait : WaitAct sh w sh' w') :
      Act sh (.detachWait w) .use sh' (.detachWait w')
  | detachPass (hactive : sh.activeThreads = 0) :
      Act sh (.detachWait .check) .use { sh with lkThreads := false } .detachDestroy
  | detachDestroy : Act sh .detachDestroy .destroy sh.procDestroy .detachRet
  | detachRet : Act sh .detachRet .ret sh .detached

/-- One step of the call of `lfi_proc_free`. -/
inductive FreeAct (sh : Shared) : FreePc → Event → Shared → FreePc → Prop
  | lockProc (hlk : sh.lkProc = false) :
      FreeAct sh .lockProc .use { sh with lkProc := true } (.wait .lock)
  | wait {w w' : Wait} {sh' : Shared} (hwait : WaitAct sh w sh' w') :
      FreeAct sh (.wait w) .use sh' (.wait w')
  | pass (hactive : sh.activeThreads = 0) :
      FreeAct sh (.wait .check) .use { sh with lkThreads := false } .decide
  | defer (hattached : 0 < sh.attachedThreads) :
      FreeAct sh .decide .use { sh with pendingFree := true } (.unlock false)
  | proceed (hattached : ¬0 < sh.attachedThreads) : FreeAct sh .decide .use sh (.unlock true)
  | unlock (d : Bool) :
      FreeAct sh (.unlock d) .use { sh with lkProc := false } (if d then .destroy else .ret)
  | destroy : FreeAct sh .destroy .destroy sh.procDestroy .ret
  | ret : FreeAct sh .ret .ret sh .returned

structure State where
  sh : Shared
  threads : List Pc

/-- The thread is the main thread, or it is still attaching. -/
def Site.early : Site → Nat
  | .main _ | .faking _ _ => 1
  | .attached _ | .destroying _ | .running _ => 0

def Pc.early : Pc → Nat
  | .inBox c _ | .exitRemove c | .exitUnlock c | .returned c => c.early
  | .cloneLock | .creating _ | .created _ | .attachFailed _ => 1
  | _ => 0

/-- One step of the system. A host thread attaches only before `lfi_proc_free`
is called, and by then every attach is complete and the main thread is freed. -/
inductive Step : State → Event → State → Prop
  | thread {sh sh' : Shared} {pc pc' : Pc} {e : Event} (before after : List Pc)
      (hrun : sh.aborted = false) (hact : Act sh pc e sh' pc') :
      Step ⟨sh, before ++ pc :: after⟩ e ⟨sh', before ++ pc' :: after⟩
  | create {sh : Shared} (before after : List Pc) (c : Site) (o : ThreadId)
      (hrun : sh.aborted = false) :
      Step ⟨sh, before ++ .inBox c (some (o, .create)) :: after⟩ .use
        ⟨sh, before ++ .inBox c (some (o, .started)) :: after ++ [.inBox (.running o) none]⟩
  | attach {sh : Shared} (threads : List Pc) (hrun : sh.aborted = false)
      (hfree : sh.free = .idle) :
      Step ⟨sh, threads⟩ .use
        ⟨{ sh with attachedThreads := sh.attachedThreads + 1 }, threads ++ [.cloneLock]⟩
  | callFree {sh : Shared} (threads : List Pc) (hrun : sh.aborted = false)
      (hfree : sh.free = .idle) (hlate : ∀ pc ∈ threads, pc.early = 0) :
      Step ⟨sh, threads⟩ .use ⟨{ sh with free := .lockProc }, threads⟩
  | free {sh sh' : Shared} {e : Event} {f : FreePc} (threads : List Pc)
      (hrun : sh.aborted = false) (hact : FreeAct sh sh.free e sh' f) :
      Step ⟨sh, threads⟩ e ⟨{ sh' with free := f }, threads⟩

/-- A process with its main thread, after `lfi_linux_init_clone`. -/
def start : State where
  sh :=
    { attachedThreads := 0, activeThreads := 0, pendingFree := false, lkProc := false,
      lkThreads := false, lkClone := false, condThreads := ⟨0, 0⟩, threads := [], cloneCtx := 1,
      allocs := 2, frees := fun _ => 0, destroys := 0, aborted := false, free := .idle }
  threads := [.inBox (.main 0) none]

/-- The thread is done with the process. -/
def Pc.done : Pc → Bool
  | .mainFreed | .detached | .ended => true
  | _ => false

/-- `lfi_proc_free` has returned, every attached thread has detached and every
thread that the runtime started has ended. -/
def Final (s : State) : Prop := s.sh.free = .returned ∧ ∀ pc ∈ s.threads, pc.done = true

/-- What the end of a process promises in a state of a run. -/
structure Lifetimes (s : State) : Prop where
  once : s.sh.destroys ≤ 1
  quiet : ∀ t, Step s .destroy t → s.sh.attachedThreads = 0 ∧ s.sh.activeThreads = 0
  last : 0 < s.sh.destroys → ∀ e t, Step s e t → e = .ret
  freedOnce : ∀ o, s.sh.frees o ≤ 1
  final : Final s → s.sh.destroys = 1 ∧ ∀ o < s.sh.allocs, s.sh.frees o = 1

/-- `thread_create` clones once in one attach: it does not clone on `clone_ctx`
where `new_ctx` is already set. -/
def ClonesOnce (_ : State) (e : Event) : Prop := ∀ o, e ≠ .fakeClone (some o)

end LfiRuntime.ProcThreads
