import Mathlib.Tactic
import LfiRuntime.Lib.Runs

/-!
The contexts of `Sandbox<LFI>`: the map `thread_ctxs_` of every sandbox, the
cache and the attachments of every host thread, and the contexts that the
runtime has given out. Each access under `thread_ctx_mutex_` is a step, and the
steps of all threads interleave.
-/

namespace LfiRuntime.ThreadCtx

/-- A node of `thread_ctxs_`. `node` stands for its address: a node that is
erased and inserted again is a new one. -/
structure Slot where
  node : Nat
  ctx : Option Nat
deriving DecidableEq, Repr

/-- A `Sandbox<LFI>`. `mainCtx` is the context of `main_thread_`. -/
structure Sandbox where
  id : Nat
  mainThreadTid : Nat
  mainCtx : Nat
  threadCtxs : Nat → Option Slot

structure ThreadAttachment where
  sandbox : Nat
  id : Nat
deriving DecidableEq, Repr

/-- Where a host thread is. In `detaching a` it has released its context, and in
`cleaned` the destructor of its `tls_cleanup` has returned: what is left of the
thread is the destructors after it, which may call back into host code. -/
inductive Phase
  | running
  | detaching (a : Nat)
  | cleaning
  | cleaned
deriving DecidableEq, Repr

/-- A host thread, with its `std::thread::id` and its thread-locals:
`attachedCtxs` is the list of `AttachedCtx`, each a process and a context. -/
structure Thread where
  tid : Nat
  lastSandboxId : Nat
  lastCtxp : Option Nat
  attachments : List ThreadAttachment
  attachedCtxs : List (Nat × Nat)
  phase : Phase
deriving DecidableEq, Repr

def Thread.start (tid : Nat) : Thread := ⟨tid, 0, none, [], [], .running⟩

/-- Sandboxes are named by their address, and processes and boxes by the `id_`
of their sandbox. `ctxs` has the box of every live context. -/
structure State where
  threads : Nat → Option Thread
  sandboxes : Nat → Option Sandbox
  ctxs : Nat → Option Nat
  sandboxIdCounter : Nat
  nextNode : Nat
  nextCtx : Nat

def State.init : State := ⟨fun _ => none, fun _ => none, fun _ => none, 1, 0, 0⟩

/-- The slot that an insertion into `thread_ctxs_` makes, at the node `n`. -/
def Sandbox.newSlot (S : Sandbox) (n tid : Nat) : Slot :=
  ⟨n, if S.mainThreadTid = tid then some S.mainCtx else none⟩

def Sandbox.setSlot (S : Sandbox) (tid : Nat) (slot : Option Slot) : Sandbox :=
  { S with threadCtxs := Function.update S.threadCtxs tid slot }

/-- The attachment that goes with the insertion, but on the main thread. -/
def Thread.attach (T : Thread) (a : Nat) (S : Sandbox) : Thread :=
  if S.mainThreadTid = T.tid then T
  else { T with attachments := T.attachments ++ [⟨a, T.tid⟩] }

def Thread.remember (T : Thread) (S : Sandbox) (slot : Slot) : Thread :=
  { T with lastSandboxId := S.id, lastCtxp := some slot.node }

/-- What `get_thread_ctx` returns, and the sandbox and the thread after it. -/
structure Got where
  ctxp : Option Nat
  sandbox : Sandbox
  thread : Thread

/-- The slow path of `get_thread_ctx`, on the thread `T` and the sandbox `S` at `a`. -/
def lookupThreadCtx (n a : Nat) (S : Sandbox) (T : Thread) : Got :=
  match S.threadCtxs T.tid with
  | some slot => ⟨some slot.node, S, T.remember S slot⟩
  | none =>
    let slot := S.newSlot n T.tid
    ⟨some slot.node, S.setSlot T.tid (some slot), (T.attach a S).remember S slot⟩

/-- `get_thread_ctx`. -/
def getThreadCtx (n a : Nat) (S : Sandbox) (T : Thread) : Got :=
  if T.lastSandboxId = S.id then ⟨T.lastCtxp, S, T⟩ else lookupThreadCtx n a S T

/-- What the pointer that `get_thread_ctx` returned points to: the context in
the slot of the thread, or nothing where the slot is not there. -/
def Got.read (g : Got) : Option (Option Nat) :=
  match g.sandbox.threadCtxs g.thread.tid with
  | some slot => if g.ctxp = some slot.node then some slot.ctx else none
  | none => none

/-- `lfi_clone(box_, ctxp)` where it succeeds: a new context `c`, which is put on
the list of the thread and in its slot. -/
def Got.lfiClone (g : Got) (c : Nat) : Got :=
  { g with
    sandbox := g.sandbox.setSlot g.thread.tid (g.ctxp.map fun node => ⟨node, some c⟩)
    thread := { g.thread with attachedCtxs := (g.sandbox.id, c) :: g.thread.attachedCtxs } }

/-- What a member function does with the result of `get_thread_ctx`. -/
inductive Access
  /-- Nothing yet. -/
  | get
  /-- `lfi_clone` where the context is null, here or in the trampoline. -/
  | obtain
  /-- `lfi_ctx_regs(*ctxp)`. -/
  | regs
deriving DecidableEq, Repr

namespace State

def setThread (s : State) (t : Nat) (T : Option Thread) : State :=
  { s with threads := Function.update s.threads t T }

def setSandbox (s : State) (a : Nat) (S : Option Sandbox) : State :=
  { s with sandboxes := Function.update s.sandboxes a S }

def setCtx (s : State) (c : Nat) (box : Option Nat) : State :=
  { s with ctxs := Function.update s.ctxs c box }

/-- The thread `T`, which is `t`, gets its slot of the sandbox `S` at `a`. -/
def got (s : State) (t a : Nat) (g : Got) : State :=
  { (s.setThread t (some g.thread)).setSandbox a (some g.sandbox) with nextNode := s.nextNode + 1 }

/-- `get_thread_ctx`, and `lfi_clone` where the slot holds null. -/
def obtain (s : State) (t a : Nat) (g : Got) : State :=
  if g.read = some none then
    { ((s.got t a (g.lfiClone s.nextCtx)).setCtx s.nextCtx (some g.sandbox.id)) with
      nextCtx := s.nextCtx + 1 }
  else s.got t a g

def access (s : State) (t a : Nat) (S : Sandbox) (T : Thread) (acc : Access) : State :=
  let g := getThreadCtx s.nextNode a S T
  match acc with
  | .obtain => s.obtain t a g
  | .get | .regs => s.got t a g

/-- `Sandbox<LFI>::create`, on a thread with the id `tid`. -/
def create (s : State) (a tid : Nat) : State :=
  let S : Sandbox := ⟨s.sandboxIdCounter, tid, s.nextCtx, fun _ => none⟩
  { ((s.setSandbox a (some S)).setCtx s.nextCtx (some S.id)) with
    sandboxIdCounter := s.sandboxIdCounter + 1
    nextCtx := s.nextCtx + 1 }

/-- `lfi_linux_detach_thread`: the first attached context of the process goes. -/
def linuxDetachThread (s : State) (t a : Nat) (S : Sandbox) (T : Thread) : State :=
  { s with
    ctxs := match T.attachedCtxs.find? fun x => x.1 = S.id with
      | some x => Function.update s.ctxs x.2 none
      | none => s.ctxs
    threads := Function.update s.threads t (some { T with
      attachedCtxs := T.attachedCtxs.eraseP fun x => x.1 = S.id
      phase := .detaching a }) }

/-- The rest of `detach_thread`: the slot, the attachments, the cache. -/
def detachThread (s : State) (t a : Nat) (S : Sandbox) (T : Thread) : State :=
  (s.setSandbox a (some (S.setSlot T.tid none))).setThread t (some { T with
    attachments := T.attachments.filter fun x => x.sandbox ≠ a
    lastSandboxId := if T.lastSandboxId = S.id then 0 else T.lastSandboxId
    lastCtxp := if T.lastSandboxId = S.id then none else T.lastCtxp
    phase := .running })

/-- `~Sandbox`: the context of `main_thread_` goes with the sandbox. -/
def destroy (s : State) (a : Nat) (S : Sandbox) : State :=
  (s.setCtx S.mainCtx none).setSandbox a none

end State

/-- A thread that may call a member function. -/
def Phase.mayCall : Phase → Prop
  | .running | .cleaned => True
  | _ => False

inductive Label
  | spawn (t tid : Nat)
  | create (t a : Nat)
  | access (t a : Nat) (acc : Access)
  | detach (t a : Nat)
  | detached (t a : Nat)
  | exit (t : Nat)
  | cleanup (t : Nat)
  | cleaned (t : Nat)
  | freeCtx (t : Nat)
  | gone (t : Nat)
  | destroy (t a : Nat)
deriving DecidableEq, Repr

/-- The steps. A thread exits in four: it runs `~ThreadCleanup`, an attachment at
a time, then `thread_destructor`, a context at a time, and is gone, with its id
free for another. Where `~ThreadCleanup` reaches a sandbox that is destroyed, or
`detach_thread` a `tls_cleanup` that is, the behaviour is undefined and there is
no step. -/
inductive Step : State → Label → State → Prop
  | spawn {s t tid} (hfree : s.threads t = none)
      (hid : ∀ t' T', s.threads t' = some T' → T'.tid ≠ tid) :
      Step s (.spawn t tid) (s.setThread t (some (.start tid)))
  | create {s t a T} (ht : s.threads t = some T) (hcall : T.phase.mayCall)
      (hfree : s.sandboxes a = none) : Step s (.create t a) (s.create a T.tid)
  | access {s t a T S} (acc : Access) (ht : s.threads t = some T) (hcall : T.phase.mayCall)
      (ha : s.sandboxes a = some S) : Step s (.access t a acc) (s.access t a S T acc)
  | detach {s t a T S} (ht : s.threads t = some T) (hrun : T.phase = .running)
      (ha : s.sandboxes a = some S) : Step s (.detach t a) (s.linuxDetachThread t a S T)
  | detached {s t a T S} (ht : s.threads t = some T) (hrun : T.phase = .detaching a)
      (ha : s.sandboxes a = some S) : Step s (.detached t a) (s.detachThread t a S T)
  | exit {s t T} (ht : s.threads t = some T) (hrun : T.phase = .running) :
      Step s (.exit t) (s.setThread t (some { T with phase := .cleaning }))
  | cleanup {s t T S x xs} (ht : s.threads t = some T) (hclean : T.phase = .cleaning)
      (hx : T.attachments = x :: xs) (ha : s.sandboxes x.sandbox = some S) :
      Step s (.cleanup t) ((s.setSandbox x.sandbox (some (S.setSlot x.id none))).setThread t
        (some { T with attachments := xs }))
  | cleaned {s t T} (ht : s.threads t = some T) (hclean : T.phase = .cleaning)
      (hx : T.attachments = []) :
      Step s (.cleaned t) (s.setThread t (some { T with phase := .cleaned }))
  | freeCtx {s t T x xs} (ht : s.threads t = some T) (hclean : T.phase = .cleaned)
      (hx : T.attachedCtxs = x :: xs) :
      Step s (.freeCtx t) ((s.setCtx x.2 none).setThread t (some { T with attachedCtxs := xs }))
  | gone {s t T} (ht : s.threads t = some T) (hclean : T.phase = .cleaned)
      (hx : T.attachedCtxs = []) : Step s (.gone t) (s.setThread t none)
  | destroy {s t a T S} (ht : s.threads t = some T) (hcall : T.phase.mayCall)
      (ha : s.sandboxes a = some S) : Step s (.destroy t a) (s.destroy a S)

/-- The thread has no slot of the sandbox at `a` and is not attached to it. -/
def Detached (a : Nat) (S : Sandbox) (T : Thread) : Prop :=
  S.threadCtxs T.tid = none ∧ ∀ x ∈ T.attachments, x.sandbox ≠ a

/-- A sandbox is destroyed only when every other thread has detached or exited. -/
def OthersDetached (s : State) : Label → Prop
  | .destroy t a => ∀ S, s.sandboxes a = some S →
      ∀ t' T', t' ≠ t → s.threads t' = some T' → Detached a S T'
  | _ => True

end LfiRuntime.ThreadCtx
