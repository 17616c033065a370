import Mathlib.Data.List.Basic
import Mathlib.Logic.Function.Basic
import LfiRuntime.Lib.Runs

/-!
The segment base of the sandbox in the x86-64 build with Segue: what
`seg_gs_set` does at the four places that enter a sandbox, over all threads and
contexts, with `SEGUE_CACHE_GS` and without.
-/

namespace LfiRuntime.GsCache

open LfiRuntime.Runs

abbrev W := BitVec 64

/-- `lfi_box_new` gives up where `boxmap_addspace` returns 0. -/
structure LFIBox where
  base : W
  base_ne : base ≠ 0

/-- A `struct LFIContext`. `r14` is the register in its `regs`, and `gsCache` the
thread whose `lfi_invoke_info.gs_base` is at `gs_cache`. -/
structure LFIContext where
  box : LFIBox
  r14 : W
  gsCache : Nat
  abortCallback : Bool
  inCtxRun : Bool

def LFIContext.setAbort (abort : Bool) (ctx : LFIContext) : LFIContext :=
  { ctx with abortCallback := abort }

def LFIContext.setInCtxRun (running : Bool) (ctx : LFIContext) : LFIContext :=
  { ctx with inCtxRun := running }

/-- A transition not yet undone. The host function above a callback or a runtime
call keeps `%r14`, as any C function does. -/
inductive Frame
  | invoke (c : Nat)
  | run (c : Nat)
  | callback (c : Nat) (r14 : W)
  | syscall (c : Nat) (r14 : W)
deriving DecidableEq

namespace Frame

def ctx : Frame → Nat
  | invoke c | run c | callback c _ | syscall c _ => c

/-- The sandbox runs above such a frame. -/
def entersBox : Frame → Bool
  | invoke _ | run _ => true
  | callback _ _ | syscall _ _ => false

def saved : Frame → Option W
  | invoke _ | run _ => none
  | callback _ r14 | syscall _ r14 => some r14

end Frame

/-- A host thread, with `%gs`, `%r14` and its `lfi_invoke_info.gs_base`. The
innermost frame is first. -/
structure Thread where
  gs : W
  r14 : W
  gsBase : W
  frames : List Frame

/-- A new thread has the `%gs` of the thread that made it, or any other, and
fresh thread-local data. -/
def Thread.start (gs : W) : Thread := ⟨gs, 0, 0, []⟩

/-- Contexts are named by their address, and a name is free again after
`lfi_ctx_free`. So is the name of a thread after its end. -/
structure State where
  threads : Nat → Option Thread
  ctxs : Nat → Option LFIContext

namespace State

def init : State := ⟨fun _ => none, fun _ => none⟩

def setThread (t : Nat) (th : Option Thread) (s : State) : State :=
  { s with threads := Function.update s.threads t th }

def setCtx (c : Nat) (ctx : Option LFIContext) (s : State) : State :=
  { s with ctxs := Function.update s.ctxs c ctx }

def mapThread (t : Nat) (f : Thread → Thread) (s : State) : State :=
  s.setThread t ((s.threads t).map f)

def mapCtx (c : Nat) (f : LFIContext → LFIContext) (s : State) : State :=
  s.setCtx c ((s.ctxs c).map f)

def frames (s : State) (t : Nat) : List Frame := (s.threads t).elim [] Thread.frames

def setFrames (t : Nat) (fs : List Frame) (s : State) : State :=
  s.mapThread t fun th => { th with frames := fs }

end State

/-- `seg_gs_set` on the thread `t` with the context `c`. `cached` is
`SEGUE_CACHE_GS`; the slot may be another thread's, or gone. -/
def segGsSet (cached : Bool) (t c : Nat) (s : State) : Option State := do
  let th ← s.threads t
  let wrgsbase := s.mapThread t fun th => { th with gs := th.r14 }
  if cached then
    let ctx ← s.ctxs c
    let scratch ← s.threads ctx.gsCache
    if scratch.gsBase = th.r14 then some s
    else some (wrgsbase.mapThread ctx.gsCache fun slot => { slot with gsBase := th.r14 })
  else some wrgsbase

/-- `ctx->gs_cache` is set to the slot of the thread. -/
def bindGs (cached : Bool) (t c : Nat) (s : State) : State :=
  if cached then s.mapCtx c fun ctx => { ctx with gsCache := t } else s

/-- What `.lfi_trampoline_common` and `lfi_ctx_run` with `lfi_ctx_entry` have in
common: `%r14` is loaded from the context, which is bound to the thread. -/
def enter (cached : Bool) (frame : Frame) (t : Nat) (s : State) : Option State := do
  let ctx ← s.ctxs frame.ctx
  let s := (bindGs cached t frame.ctx s).mapThread t fun th => { th with r14 := ctx.r14 }
  let s ← segGsSet cached t frame.ctx s
  some (s.mapThread t fun th => { th with frames := frame :: th.frames })

/-- Any of the three trampolines, after its `lazy_ctx_clone`. -/
def lfiTrampoline (cached : Bool) (t c : Nat) (s : State) : Option State :=
  enter cached (.invoke c) t s

def lfiRet (t : Nat) (s : State) : Option State :=
  match s.frames t with
  | .invoke _ :: fs => some (s.setFrames t fs)
  | _ => none

/-- `lfi_callback` or `lfi_callback_struct`, up to the call of the host function. -/
def lfiCallback (t : Nat) (s : State) : Option State := do
  let th ← s.threads t
  let f ← th.frames.head?
  if f.entersBox then some (s.setFrames t (.callback f.ctx th.r14 :: th.frames)) else none

/-- Where a host function has returned to a callback or a runtime call. -/
def resume (cached : Bool) (t c : Nat) (r14 : W) (fs : List Frame) (s : State) : Option State :=
  segGsSet cached t c (s.mapThread t fun th => { th with r14 := r14, frames := fs })

/-- The callback after that call. `lfi_ret_end`, where an aborted one goes, undoes
the frame of an invocation; there is no telling where it returns to otherwise. -/
def lfiCallbackEnd (cached : Bool) (t : Nat) (s : State) : Option State :=
  match s.frames t with
  | .callback c r14 :: fs => do
    let ctx ← s.ctxs c
    if ctx.abortCallback then
      match fs with
      | .invoke _ :: fs =>
        some ((s.mapCtx c (LFIContext.setAbort false)).setFrames t fs)
      | _ => none
    else resume cached t c r14 fs s
  | _ => none

/-- `lfi_syscall_entry` up to the call of the handler. -/
def lfiSyscallEntry (t : Nat) (s : State) : Option State := do
  let th ← s.threads t
  let f ← th.frames.head?
  if f.entersBox then some (s.setFrames t (.syscall f.ctx th.r14 :: th.frames)) else none

def lfiSyscallEnd (cached : Bool) (t : Nat) (s : State) : Option State :=
  match s.frames t with
  | .syscall c r14 :: fs => resume cached t c r14 fs s
  | _ => none

def lfiCtxNew (cached : Bool) (t : Nat) (box : LFIBox) : LFIContext :=
  ⟨box, box.base, if cached then t else 0, false, false⟩

def lfiCtxRun (cached : Bool) (t c : Nat) (s : State) : Option State :=
  enter cached (.run c) t (s.mapCtx c (LFIContext.setInCtxRun true))

/-- `lfi_ctx_exit`, and the end of `lfi_ctx_run`. It is `abort()` outside a run.
The `host_sp` of the context is that of the run in a handler of the run's own
runtime calls, with whatever other contexts have put on the stack since. -/
def lfiCtxExit (t c : Nat) (s : State) : Option State := do
  let ctx ← s.ctxs c
  if ctx.inCtxRun then
    match (s.frames t).dropWhile (·.ctx ≠ c) with
    | .syscall _ _ :: .run _ :: fs =>
      some ((s.mapCtx c (LFIContext.setInCtxRun false)).setFrames t fs)
    | _ => none
  else none

inductive Action
  | spawn (t : Nat) (gs : W)
  | exit (t : Nat)
  | ctxNew (t c : Nat) (box : LFIBox)
  | ctxFree (t c : Nat)
  | abortCb (t c : Nat)
  | invoke (t c : Nat)
  | ret (t : Nat)
  | callback (t : Nat)
  | callbackEnd (t : Nat)
  | syscall (t : Nat)
  | syscallEnd (t : Nat)
  | run (t c : Nat)
  | ctxExit (t c : Nat)

def perform (cached : Bool) (s : State) : Action → Option State
  | .spawn t gs => some (s.setThread t (some (Thread.start gs)))
  | .exit t => some (s.setThread t none)
  | .ctxNew t c box => some (s.setCtx c (some (lfiCtxNew cached t box)))
  | .ctxFree _ c => some (s.setCtx c none)
  | .abortCb _ c => some (s.mapCtx c (LFIContext.setAbort true))
  | .invoke t c => lfiTrampoline cached t c s
  | .ret t => lfiRet t s
  | .callback t => lfiCallback t s
  | .callbackEnd t => lfiCallbackEnd cached t s
  | .syscall t => lfiSyscallEntry t s
  | .syscallEnd t => lfiSyscallEnd cached t s
  | .run t c => lfiCtxRun cached t c s
  | .ctxExit t c => lfiCtxExit t c s

/-- No sandbox code runs above these frames. -/
def AboveHost (fs : List Frame) : Prop := ∀ f ∈ fs.head?, f.entersBox = false

def State.OnHost (s : State) (t : Nat) : Prop :=
  (s.threads t).isSome ∧ AboveHost (s.frames t)

def State.Uses (s : State) (t c : Nat) : Prop := ∃ f ∈ s.frames t, f.ctx = c

/-- Where the program takes the step: from host code, on a context that no other
thread uses. -/
def Allowed (s : State) : Action → Prop
  | .spawn t _ => s.threads t = none
  | .exit t => s.frames t = []
  | .ctxNew t c _ => s.OnHost t ∧ s.ctxs c = none
  | .ctxFree t c => s.OnHost t ∧ ∀ u, ¬s.Uses u c
  | .invoke t c | .run t c => s.OnHost t ∧ ∀ u, u ≠ t → ¬s.Uses u c
  | .abortCb t _ | .ctxExit t _ => s.OnHost t
  | .ret _ | .callback _ | .callbackEnd _ | .syscall _ | .syscallEnd _ => True

def Step (cached : Bool) (s : State) (a : Action) (s' : State) : Prop :=
  Allowed s a ∧ perform cached s a = some s'

/-- Sandbox code of the box runs on the thread `th`. -/
def State.RunsIn (s : State) (th : Thread) (box : LFIBox) : Prop :=
  ∃ f ∈ th.frames.head?, f.entersBox ∧ ∃ ctx, s.ctxs f.ctx = some ctx ∧ ctx.box = box

end LfiRuntime.GsCache
