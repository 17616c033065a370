import LfiRuntime.Linux.SysRuns

/-!
Processes whose threads make system calls. The operations of the handlers interleave in
any order, and the host gives any answers.
-/

namespace LfiRuntime.Syscalls

open LfiRuntime.Programs
open LfiRuntime.Programs.Program
open LfiRuntime.Runs

/-- A system call, and the thread as it was when it made it. -/
structure Entered where
  thread : LFILinuxThread
  sysno : BitVec 64
  args : Fin 6 → BitVec 64

/-- Where a thread is: `rest` is what is left of the system call. -/
inductive Place : Type 1
  | host
  | sandbox
  | syscall (c : Entered) (rest : Sys Int)

structure Task : Type 1 where
  thread : LFILinuxThread
  place : Place

abbrev Tasks := ThreadId → Option Task

namespace Tasks

def put (s : Tasks) (i : ThreadId) (t : LFILinuxThread) (p : Place) : Tasks :=
  Function.update s i (some ⟨t, p⟩)

def modify (s : Tasks) (i : ThreadId) (f : LFILinuxThread → LFILinuxThread) : Tasks :=
  Function.update s i ((s i).map fun task => { task with thread := f task.thread })

end Tasks

/-- `lfi_ctx_exit` ends the `lfi_ctx_run` of its context. -/
def PlainOp.leave (t : LFILinuxThread) : PlainOp β → LFILinuxThread
  | .ctxExit _ => { t with inCtxRun := false }
  | _ => t

/-- What an operation of the thread `i` does to the threads. -/
def PlainOp.effect (i : ThreadId) (s : Tasks) : PlainOp β → β → Tasks
  | .setPaused, _ => s.modify i fun t => { t with paused := true }
  | .setExited, _ => s.modify i fun t => { t with exited := true }
  | .threadClone owner, some (new, tid) => s.put new ⟨tid, 0, owner, false, false, false, 0⟩ .host
  | .handOver new, _ => s.modify new fun t => { t with owner := .host }
  | .threadFree new, _ => Function.update s new none
  | _, _ => s

def SysOp.effect (i : ThreadId) (s : Tasks) : SysOp β → β → Tasks
  | .setCtidp ctid, _ => s.modify i fun t => { t with ctidp := ctid }
  | .cloneCtidp new ctid, _ => s.modify new fun t => { t with ctidp := ctid }
  | .plain o, x => o.effect i s x
  | _, _ => s

/-- A thread that is made is none that there is. -/
def SysOp.Answers (s : Tasks) : SysOp β → β → Prop
  | .plain (.threadClone _), some (new, _) => s new = none
  | _, _ => True

/-- One step, which the thread makes or the host with it. -/
inductive Step (env : Env) (s : Tasks) : ThreadId → Tasks → Prop
  -- the host
  | new {i : ThreadId} (t : LFILinuxThread) (hnew : s i = none) (hctidp : t.ctidp = 0)
      (hpaused : t.paused = false) (hexited : t.exited = false) (hrun : t.inCtxRun = false) :
      Step env s i (s.put i t .host)
  -- `lfi_ctx_run`, and the trampoline
  | run {i : ThreadId} {t : LFILinuxThread} (h : s i = some ⟨t, .host⟩) :
      Step env s i (s.put i { t with inCtxRun := true } .sandbox)
  | invoke {i : ThreadId} {t : LFILinuxThread} (h : s i = some ⟨t, .host⟩) :
      Step env s i (s.put i t .sandbox)
  | free {i : ThreadId} {t : LFILinuxThread} (h : s i = some ⟨t, .host⟩) :
      Step env s i (Function.update s i none)
  -- the sandbox
  | leave {i : ThreadId} {t : LFILinuxThread} (h : s i = some ⟨t, .sandbox⟩) :
      Step env s i (s.put i t .host)
  | enter {i : ThreadId} {t : LFILinuxThread} (sysno : BitVec 64) (a : Fin 6 → BitVec 64)
      (h : s i = some ⟨t, .sandbox⟩) :
      Step env s i (s.put i t (.syscall ⟨t, sysno, a⟩ (syshandle env t sysno a)))
  -- a handler
  | perform {i : ThreadId} {t : LFILinuxThread} {c : Entered} {β : Type} {o : SysOp β}
      {next : β → Sys Int} (x : β) (h : s i = some ⟨t, .syscall c (.call o next)⟩)
      (hx : o.Answers s x) : Step env s i (o.effect i (s.put i t (.syscall c (next x))) x)
  | exit {i : ThreadId} {t : LFILinuxThread} {c : Entered} {o : PlainOp Empty}
      {next : Empty → Sys Int} (h : s i = some ⟨t, .syscall c (.call (.plain o) next)⟩) :
      Step env s i (s.put i (o.leave t) .host)
  | ret {i : ThreadId} {t : LFILinuxThread} {c : Entered} {r : Int}
      (h : s i = some ⟨t, .syscall c (.ret r)⟩) : Step env s i (s.put i t .sandbox)

/-- A process without a thread. -/
def noTasks : Tasks := fun _ => none

abbrev Reachable (env : Env) (s : Tasks) : Prop := Reaches (Step env) anyStep noTasks s

/-- What holds of a thread in every state. -/
structure TaskOk (env : Env) (task : Task) : Prop where
  tid : TidOk env task.thread
  call : ∀ c rest, task.place = .syscall c rest →
    Confined env (MayEnd env c.thread c.sysno c.args) rest

def Inv (env : Env) (s : Tasks) : Prop := ∀ i task, s i = some task → TaskOk env task

section

variable {env : Env} {s s' : Tasks} {i : ThreadId} {t : LFILinuxThread}

theorem TaskOk.host (h : TidOk env t) : TaskOk env ⟨t, .host⟩ :=
  ⟨h, by rintro c rest ⟨⟩⟩

theorem TaskOk.sandbox (h : TidOk env t) : TaskOk env ⟨t, .sandbox⟩ :=
  ⟨h, by rintro c rest ⟨⟩⟩

theorem tidOk_leave (h : TidOk env t) (o : PlainOp β) : TidOk env (o.leave t) := by
  cases o <;> exact h

/-- A new thread keeps no pointer. -/
theorem tidOk_of_zero (h : t.ctidp = 0) : TidOk env t := fun hne => absurd h hne

theorem Inv.put {p : Place} (h : Inv env s) (htask : TaskOk env ⟨t, p⟩) :
    Inv env (s.put i t p) := by
  intro j task hj
  rcases eq_or_ne j i with rfl | hne
  · rw [Tasks.put, Function.update_self, Option.some.injEq] at hj
    exact hj ▸ htask
  · rw [Tasks.put, Function.update_of_ne hne] at hj
    exact h j task hj

theorem Inv.remove (h : Inv env s) : Inv env (Function.update s i none) := by
  intro j task hj
  rcases eq_or_ne j i with rfl | hne
  · rw [Function.update_self] at hj
    exact absurd hj (Option.some_ne_none task).symm
  · rw [Function.update_of_ne hne] at hj
    exact h j task hj

theorem Inv.modify {f : LFILinuxThread → LFILinuxThread} (h : Inv env s)
    (hf : ∀ t, TidOk env t → TidOk env (f t)) : Inv env (s.modify i f) := by
  intro j task hj
  rcases eq_or_ne j i with rfl | hne
  · rw [Tasks.modify, Function.update_self, Option.map_eq_some_iff] at hj
    rcases hj with ⟨old, hold, rfl⟩
    have hok := h j old hold
    exact ⟨hf old.thread hok.tid, hok.call⟩
  · rw [Tasks.modify, Function.update_of_ne hne] at hj
    exact h j task hj

theorem Inv.effect {F : Fatal → Prop} {β : Type} {o : SysOp β} (h : Inv env s)
    (ho : o.Within env F) (x : β) : Inv env (o.effect i s x) := by
  cases o with
  | setCtidp ctid => exact h.modify (f := fun t => { t with ctidp := ctid }) fun _ _ _ => ho
  | cloneCtidp new ctid => exact h.modify (f := fun t => { t with ctidp := ctid }) fun _ _ _ => ho
  | plain o =>
      cases o with
      | setPaused => exact h.modify (f := fun t => { t with paused := true }) fun _ ht => ht
      | setExited => exact h.modify (f := fun t => { t with exited := true }) fun _ ht => ht
      | handOver new => exact h.modify (f := fun t => { t with owner := .host }) fun _ ht => ht
      | threadFree new => exact h.remove
      | threadClone owner =>
          rcases x with _ | ⟨new, tid⟩
          · exact h
          · exact h.put (.host (tidOk_of_zero rfl))
      | _ => exact h
  | _ => exact h

/-- One step keeps the invariant. A handler keeps it by what is left of it. -/
theorem inv_step (hpass : env.sysPassthrough = false) (h : Inv env s)
    (hstep : Step env s i s') : Inv env s' := by
  cases hstep with
  | new t hnew hctidp => exact h.put (.host (tidOk_of_zero hctidp))
  | run hi => exact h.put (.sandbox (h _ _ hi).tid)
  | invoke hi => exact h.put (.sandbox (h _ _ hi).tid)
  | free hi => exact h.remove
  | leave hi => exact h.put (.host (h _ _ hi).tid)
  | enter sysno a hi =>
      have htid := (h _ _ hi).tid
      refine h.put ⟨htid, ?_⟩
      rintro c rest ⟨⟩
      exact confined_syshandle htid hpass fun _ hend => hend
  | perform x hi hx =>
      have hok := h _ _ hi
      have hcall := hok.call _ _ rfl
      apply Inv.effect _ hcall.1 x
      refine h.put ⟨hok.tid, ?_⟩
      rintro c rest ⟨⟩
      exact hcall.2 x
  | exit hi => exact h.put (.host (tidOk_leave (h _ _ hi).tid _))
  | ret hi => exact h.put (.sandbox (h _ _ hi).tid)

theorem inv_of_reachable (hpass : env.sysPassthrough = false) (h : Reachable env s) :
    Inv env s := by
  refine h.invariant (fun i task hi => absurd hi.symm (Option.some_ne_none task)) ?_
  intro s i s' hinv _ hstep
  exact inv_step hpass hinv hstep

theorem SysOp.Within.spans {F : Fatal → Prop} {β : Type} {o : SysOp β} (h : o.Within env F) :
    ∀ x ∈ o.spans, env.box.min ≤ x.1 ∧ x.1 + x.2 ≤ env.box.max := by
  cases o with
  | fatal f => simp [SysOp.spans]
  | setCtidp ctid => simp [SysOp.spans]
  | cloneCtidp new ctid => simp [SysOp.spans]
  | passthrough sysno a => exact h.elim
  | _ => exact h

/-- The arguments of a system call, with zeros for the rest. -/
def args (l : List (BitVec 64)) : Fin 6 → BitVec 64 := fun i => l.getD i.val 0

/-- A box with one thread, which has started. -/
def smallEnv : Env :=
  ⟨.x64, ⟨65536, 131072⟩, 65536, 4096, false, false, false, 1⟩

def newThread : LFILinuxThread := ⟨10000, 0, .main, false, false, false, 4096⟩

def firstThread : LFILinuxThread := { newThread with inCtxRun := true }

def started : Tasks := (noTasks.put 0 newThread .host).put 0 firstThread .sandbox

theorem reachable_started : Reachable smallEnv started :=
  ((Reaches.refl _).tail trivial (.new newThread rfl rfl rfl rfl rfl)).tail trivial (.run rfl)

/-- The operation does not end the host in this way. -/
def SysOp.Spares (f : Fatal) : SysOp β → Prop
  | .fatal g => g ≠ f
  | _ => True

@[simp] theorem spares_plain (f : Fatal) {β : Type} (o : PlainOp β) :
    SysOp.Spares f (.plain o) := trivial

@[simp] theorem spares_strncpy (f : Fatal) (p n : Nat) : SysOp.Spares f (.strncpy p n) := trivial

@[simp] theorem spares_store (f : Fatal) (p : Nat) (bs : ByteString.Bytes) :
    SysOp.Spares f (.store p bs) := trivial

@[simp] theorem spares_cloneCtidp (f : Fatal) (new : ThreadId) (ctid : Nat) :
    SysOp.Spares f (.cloneCtidp new ctid) := trivial

@[simp] theorem spares_fatal (f g : Fatal) : SysOp.Spares f (.fatal g) ↔ g ≠ f := Iff.rfl

/-- What cannot be shown of every run happens in one. -/
theorem after_fatal {α : Type} {p : Sys α} {f : Fatal}
    (h : ¬p.Meets (SysOp.Spares f) fun _ => True) : ∃ next, After p (.call (.fatal f) next) := by
  by_contra hnone
  apply h
  rw [meets_iff_after]
  refine ⟨?_, fun _ _ => trivial⟩
  intro β o next hafter
  cases o with
  | fatal g =>
      rintro rfl
      exact hnone ⟨next, hafter⟩
  | _ => trivial

variable {sysno : BitVec 64} {a : Fin 6 → BitVec 64} {f : Fatal} {R : Int → Prop}
  {G : ∀ {β : Type}, SysOp β → Prop}

theorem meets_dispatch (h : (syshandle env t sysno a).Meets G R) :
    (dispatch env t sysno a).Meets G R := by
  simp only [syshandle, sysCheckpoint, meets_bind, meets_plain] at h
  exact h.2 none

theorem meets_checkpoint (h : (syshandle env t sysno a).Meets G R) (code : Int) :
    (threadExit env t .thread code : Sys Unit).Meets G fun _ => True := by
  simp only [syshandle, sysCheckpoint, meets_bind, meets_plain] at h
  exact (h.2 (some code)).mono (fun _ ho => ho) fun _ _ => trivial

/-- `clearctid` comes to an end, for some answers. -/
theorem clearctid_returns : ¬(clearctid env t).Meets G fun _ => False := by
  by_cases hctid : t.ctidp = 0
  · simp [clearctid, hctid]
  · simp only [clearctid, hctid, sysFutex, ne_eq, not_false_eq_true, if_true, meets_bind,
      meets_perform, meets_ite, meets_pure, imp_false]
    rintro ⟨-, h⟩
    have hwake : ¬(1#32 &&& ~~~Futex.futexPrivateFlag) = 0#32 := by decide
    have hreturns := h ()
    simp [hwake] at hreturns

theorem ends_threadExit (howner : t.owner ≠ .host)
    (hend : t.paused ∨ t.exited ∨ t.inCtxRun = false) {code : Int} :
    ¬(threadExit env t .thread code : Sys Unit).Meets (SysOp.Spares .abort) fun _ => True := by
  intro h
  simp only [threadExit, howner, reduceCtorEq, if_false, meets_bind, meets_ite,
    meets_noreturn, spares_fatal, meets_plain, ne_eq, not_true_eq_false, imp_false] at h
  obtain ⟨hpaused, h⟩ := h
  obtain ⟨hexited, h⟩ := h hpaused
  have hrun : t.inCtxRun = false := by tauto
  have hnone : (clearctid env t).Meets (SysOp.Spares .abort) fun _ => False :=
    (((h hexited).2 ()).2 ()).mono (fun _ ho => ho) fun _ hexit => by
      simp [lfiCtxExit, hrun] at hexit
  exact clearctid_returns hnone

theorem ends_pause (hend : t.paused ∨ t.inCtxRun = false) :
    ¬(sysLfiPause t).Meets (SysOp.Spares .abort) fun _ => True := by
  rcases hend with hpaused | hrun
  · simp [sysLfiPause, hpaused]
  · simp [sysLfiPause, lfiCtxExit, hrun]

theorem ends_newfstatat (hpass : env.sysPassthrough = false)
    (hs : sysnoOf env.arch sysno = some .newfstatat)
    (hodd : OddStat env (int (a 0)) (a 1).toNat (a 2).toNat (uint (a 3))) :
    ¬(dispatch env t sysno a).Meets (SysOp.Spares .assertion) fun _ => True := by
  intro h
  simp only [dispatch, hs, hpass, handleAlways, handle, sysNewfstatat, hodd.stat, hodd.notEmptyPath,
    hodd.cwd, Option.bind_some, Bool.not_true, Bool.false_eq_true, if_true, if_false, meets_withPath,
    hodd.path, forall_const, ne_eq, not_true_eq_false] at h
  have hcheck := (h.2.2.2.2 ⟨[], Nat.zero_le _⟩).2 []
  have hflags : decide (uint (a 3) = LINUX_AT_EMPTY_PATH ∨ uint (a 3) = 0) = false := by
    have hempty := hodd.notEmptyPath
    have hne := hodd.flags
    simp only [decide_eq_false_iff_not, not_or]
    refine ⟨?_, hne⟩
    intro heq
    rw [heq] at hempty
    exact absurd hempty (by decide)
  simp only [hostFstatat, hflags, meets_bind, meets_check] at hcheck
  exact hcheck.2 trivial rfl

theorem ends_clone (hs : sysnoOf env.arch sysno = some .clone) (hfork : isfork (a 0) = false)
    (hspawns : Spawns env (cloneArgs env.arch a).1 (cloneArgs env.arch a).2.1
      (cloneArgs env.arch a).2.2.1 (cloneArgs env.arch a).2.2.2) :
    ¬(dispatch env t sysno a).Meets (SysOp.Spares .assertion) fun _ => True := by
  have hspawn : ∀ {flags : BitVec 64} {stack ptidp ctidp tls : Nat},
      Spawns env flags stack ptidp ctidp →
        ¬(spawn env flags stack ptidp ctidp tls).Meets (SysOp.Spares .assertion) fun _ => True := by
    intro flags stack ptidp ctidp tls hsp h
    simp only [spawn, hsp.flags, hsp.stack, hsp.ctid, hsp.ptid, meets_bind, meets_plain,
      Bool.not_true, Bool.false_eq_true, if_false] at h
    have hclone := (h.2 true).2 (some (0, 0))
    simp only [meets_bind, meets_onFlag, meets_plain, spawnOn, if_true, spawnAttached,
      meets_check] at hclone
    exact ((hclone.2.2.2.2 ()).2 1).2 rfl rfl
  rw [dispatch, hs]
  cases harch : env.arch <;> rw [harch] at hspawns <;>
    simpa only [cloneArgs, Option.bind_some, handleAlways, harch, sysClone, hfork, Bool.false_eq_true,
      if_false] using hspawn hspawns

end

end LfiRuntime.Syscalls
