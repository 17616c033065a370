import Mathlib.Data.List.Basic

/-!
The sandbox reference that a callback is given. It travels from the call to the
callback through one thread-local, which the entry points set. A
call that aborts on an unknown symbol reaches no function and does not occur in
a `Calls`.
-/

namespace LfiRuntime.CurrentSandbox

inductive Backend
  | passthrough
  | lfi
deriving DecidableEq, Repr

structure Sandbox where
  backend : Backend
  addr : Nat
deriving DecidableEq, Repr

/-- One host thread. The code sees `tlsCurrentSandbox` only: `calls` are the
sandboxes of the calls on the stack, innermost first, and `passed` has, for each
callback that took a sandbox, the reference it got and the innermost call. -/
structure Thread where
  tlsCurrentSandbox : Option Sandbox
  calls : List Sandbox
  passed : List (Option Sandbox × Option Sandbox)
deriving DecidableEq, Repr

def Thread.start : Thread := ⟨none, [], []⟩

abbrev Code := Thread → Thread

/-- `ScopedSandboxTLS _tls_guard(sb)` with the rest of its scope. -/
def scopedSandboxTLS (sb : Sandbox) (scope : Code) : Code := fun t =>
  let prev := t.tlsCurrentSandbox
  { scope { t with tlsCurrentSandbox := some sb } with tlsCurrentSandbox := prev }

/-- `callback_thunk_impl::call`, with or without a first parameter `Sandbox&`. -/
def callbackThunk (takesSandbox : Bool) (fn : Code) : Code := fun t =>
  if takesSandbox then
    fn { t with passed := (t.tlsCurrentSandbox, t.calls.head?) :: t.passed }
  else fn t

/-! The entry points. `fn` is the sandboxed function that runs. -/

namespace Passthrough

def finalize : Code := id

def callPtr (sb : Sandbox) (fn : Code) : Code := scopedSandboxTLS sb fn

def callName (sb : Sandbox) (fn : Code) : Code := callPtr sb fn

def callTypedName (sb : Sandbox) (fn : Code) : Code := callName sb fn

def callFn (sb : Sandbox) (fn : Code) : Code := scopedSandboxTLS sb fn

def callCtxName (sb : Sandbox) (fn : Code) : Code := finalize ∘ callName sb fn

def callCtxTypedName (sb : Sandbox) (fn : Code) : Code := callCtxName sb fn

/-- This one calls `fn` with no guard in scope. -/
def callCtxFn (_sb : Sandbox) (fn : Code) : Code := finalize ∘ fn

/-- A call of what `fn(Sig*)` gives: the function pointer itself. -/
def callFnPtr (_sb : Sandbox) (fn : Code) : Code := fn

end Passthrough

namespace LFI

/-- The copybacks write the caller's variables and no thread-local. -/
def finalize : Code := id

def callPtr (sb : Sandbox) (fn : Code) : Code := scopedSandboxTLS sb fn

def callName (sb : Sandbox) (fn : Code) : Code := callPtr sb fn

def callTypedName (sb : Sandbox) (fn : Code) : Code := callName sb fn

def callCtxName (sb : Sandbox) (fn : Code) : Code := finalize ∘ callName sb fn

def callCtxTypedName (sb : Sandbox) (fn : Code) : Code := callCtxName sb fn

end LFI

/-- How a call goes in: the overloads of `call`, and the handles that `fn` gives. Only
the passthrough backend calls by function pointer. -/
inductive Entry : Backend → Type
  | name {b : Backend} : Entry b
  | typedName {b : Backend} : Entry b
  | handle {b : Backend} : Entry b
  | ctxName {b : Backend} : Entry b
  | ctxTypedName {b : Backend} : Entry b
  | pointer : Entry .passthrough
  | ctxPointer : Entry .passthrough
  | pointerHandle : Entry .passthrough

def Entry.code (sb : Sandbox) : {b : Backend} → Entry b → Code → Code
  | .passthrough, .name => Passthrough.callName sb
  | .passthrough, .typedName => Passthrough.callTypedName sb
  | .passthrough, .handle => Passthrough.callPtr sb
  | .passthrough, .ctxName => Passthrough.callCtxName sb
  | .passthrough, .ctxTypedName => Passthrough.callCtxTypedName sb
  | .passthrough, .pointer => Passthrough.callFn sb
  | .passthrough, .ctxPointer => Passthrough.callCtxFn sb
  | .passthrough, .pointerHandle => Passthrough.callFnPtr sb
  | .lfi, .name => LFI.callName sb
  | .lfi, .typedName => LFI.callTypedName sb
  | .lfi, .handle => LFI.callPtr sb
  | .lfi, .ctxName => LFI.callCtxName sb
  | .lfi, .ctxTypedName => LFI.callCtxTypedName sb

mutual

/-- The calls that host code makes one after the other. -/
inductive Calls
  | nil
  | call (sb : Sandbox) (e : Entry sb.backend) (fn : Callbacks) (rest : Calls)

/-- The callbacks that a sandboxed function makes one after the other. -/
inductive Callbacks
  | nil
  | callback (takesSandbox : Bool) (body : Calls) (rest : Callbacks)

end

def inCall (sb : Sandbox) (code : Code) : Code := fun t =>
  { code { t with calls := sb :: t.calls } with calls := t.calls }

mutual

def Calls.run : Calls → Code
  | .nil, t => t
  | .call sb e fn rest, t => rest.run (inCall sb (e.code sb fn.run) t)

def Callbacks.run : Callbacks → Code
  | .nil, t => t
  | .callback takesSandbox body rest, t => rest.run (callbackThunk takesSandbox body.run t)

end

/-- Every callback got the sandbox that called it, and the thread-local is null. -/
def GivenCaller (t : Thread) : Prop :=
  (∀ p ∈ t.passed, p.1 = p.2) ∧ t.tlsCurrentSandbox = none

instance (t : Thread) : Decidable (GivenCaller t) :=
  inferInstanceAs (Decidable (_ ∧ _))

/-- Which calls set the thread-local. -/
def Entry.guarded {b : Backend} : Entry b → Bool
  | .ctxPointer => false
  | .pointerHandle => false
  | _ => true

structure Enclosing where
  sandbox : Sandbox
  guarded : Bool

/-- The innermost of the enclosing calls that set the thread-local. -/
def scope (outer : List Enclosing) : Option Sandbox :=
  (outer.find? Enclosing.guarded).map Enclosing.sandbox

mutual

/-- A callback that takes a sandbox runs where the innermost call, and the
innermost call that set the thread-local, are calls of one sandbox. -/
def Calls.Covered (outer : List Enclosing) : Calls → Prop
  | .nil => True
  | .call sb e fn rest => fn.Covered (⟨sb, e.guarded⟩ :: outer) ∧ rest.Covered outer

def Callbacks.Covered (outer : List Enclosing) : Callbacks → Prop
  | .nil => True
  | .callback takesSandbox body rest =>
      (takesSandbox → scope outer = outer.head?.map Enclosing.sandbox) ∧
        body.Covered outer ∧ rest.Covered outer

end

/-- The thread runs inside the calls `outer`. -/
structure Within (outer : List Enclosing) (t : Thread) : Prop where
  tls : t.tlsCurrentSandbox = scope outer
  calls : t.calls = outer.map Enclosing.sandbox

variable {outer : List Enclosing} {t : Thread}

theorem code_guarded {b : Backend} (sb : Sandbox) (e : Entry b) (fn : Code)
    (h : e.guarded = true) : e.code sb fn = scopedSandboxTLS sb fn := by
  cases e with
  | ctxPointer => simp [Entry.guarded] at h
  | pointerHandle => simp [Entry.guarded] at h
  | pointer => rfl
  | _ => cases b <;> rfl

theorem code_unguarded {b : Backend} (sb : Sandbox) (e : Entry b) (fn : Code)
    (h : e.guarded = false) : e.code sb fn = fn := by
  cases e with
  | ctxPointer => rfl
  | pointerHandle => rfl
  | _ => simp [Entry.guarded] at h

/-- What a body does inside an entry point, by what the body does on its own:
the thread-local and the calls are as before, and the callbacks are the body's. -/
theorem inCall_code {sb : Sandbox} (e : Entry sb.backend) {fn : Code} {P : Prop}
    (ht : Within outer t)
    (hfn : ∀ t, Within (⟨sb, e.guarded⟩ :: outer) t →
      Within (⟨sb, e.guarded⟩ :: outer) (fn t) ∧
        ((∀ p ∈ (fn t).passed, p.1 = p.2) ↔ (∀ p ∈ t.passed, p.1 = p.2) ∧ P)) :
    Within outer (inCall sb (e.code sb fn) t) ∧
      ((∀ p ∈ (inCall sb (e.code sb fn) t).passed, p.1 = p.2) ↔
        (∀ p ∈ t.passed, p.1 = p.2) ∧ P) := by
  rcases hg : e.guarded with _ | _
  · rw [hg] at hfn
    have hin : Within (⟨sb, false⟩ :: outer) { t with calls := sb :: t.calls } :=
      ⟨by simpa [scope] using ht.tls, by simp [ht.calls]⟩
    obtain ⟨hout, hpassed⟩ := hfn _ hin
    rw [code_unguarded sb e fn hg]
    exact ⟨⟨by simpa [inCall, scope] using hout.tls, ht.calls⟩, hpassed⟩
  · rw [hg] at hfn
    rw [code_guarded sb e fn hg]
    have hin : Within (⟨sb, true⟩ :: outer)
        { t with tlsCurrentSandbox := some sb, calls := sb :: t.calls } :=
      ⟨rfl, by simp [ht.calls]⟩
    obtain ⟨-, hpassed⟩ := hfn _ hin
    exact ⟨⟨ht.tls, ht.calls⟩, hpassed⟩

/-- A callback reads the thread-local once, on the way in. -/
theorem callbackThunk_spec (takesSandbox : Bool) {fn : Code} {P : Prop}
    (ht : Within outer t)
    (hfn : ∀ t, Within outer t → Within outer (fn t) ∧
      ((∀ p ∈ (fn t).passed, p.1 = p.2) ↔ (∀ p ∈ t.passed, p.1 = p.2) ∧ P)) :
    Within outer (callbackThunk takesSandbox fn t) ∧
      ((∀ p ∈ (callbackThunk takesSandbox fn t).passed, p.1 = p.2) ↔
        (∀ p ∈ t.passed, p.1 = p.2) ∧
          (takesSandbox → scope outer = outer.head?.map Enclosing.sandbox) ∧ P) := by
  rcases takesSandbox with _ | _
  · simpa [callbackThunk] using hfn t ht
  · have hread : (t.tlsCurrentSandbox = t.calls.head?) ↔
        scope outer = outer.head?.map Enclosing.sandbox := by
      rw [ht.tls, ht.calls, List.head?_map]
    obtain ⟨hout, hpassed⟩ := hfn
      { t with passed := (t.tlsCurrentSandbox, t.calls.head?) :: t.passed } ⟨ht.tls, ht.calls⟩
    refine ⟨hout, ?_⟩
    simp only [callbackThunk, if_true]
    rw [hpassed, List.forall_mem_cons]
    simp only [hread, true_implies]
    tauto

mutual

theorem Calls.run_spec {outer : List Enclosing} (cs : Calls) (t : Thread)
    (ht : Within outer t) : Within outer (cs.run t) ∧
      ((∀ p ∈ (cs.run t).passed, p.1 = p.2) ↔
        (∀ p ∈ t.passed, p.1 = p.2) ∧ cs.Covered outer) :=
  match cs with
  | .nil => ⟨ht, by simp [Calls.run, Calls.Covered]⟩
  | .call sb e fn rest => by
      obtain ⟨hin, hcall⟩ := inCall_code e ht (fun t ht => fn.run_spec t ht)
      obtain ⟨hout, hrest⟩ := rest.run_spec _ hin
      refine ⟨hout, ?_⟩
      rw [Calls.run, hrest, hcall, Calls.Covered, and_assoc]

theorem Callbacks.run_spec {outer : List Enclosing} (cs : Callbacks) (t : Thread)
    (ht : Within outer t) : Within outer (cs.run t) ∧
      ((∀ p ∈ (cs.run t).passed, p.1 = p.2) ↔
        (∀ p ∈ t.passed, p.1 = p.2) ∧ cs.Covered outer) :=
  match cs with
  | .nil => ⟨ht, by simp [Callbacks.run, Callbacks.Covered]⟩
  | .callback takesSandbox body rest => by
      obtain ⟨hin, hbody⟩ := callbackThunk_spec takesSandbox ht (fun t ht => body.run_spec t ht)
      obtain ⟨hout, hrest⟩ := rest.run_spec _ hin
      refine ⟨hout, ?_⟩
      rw [Callbacks.run, hrest, hbody, Callbacks.Covered]
      tauto

end

theorem within_start : Within [] Thread.start := ⟨rfl, rfl⟩

/-- However calls and callbacks nest, the thread-local is back to null. -/
theorem run_tlsCurrentSandbox (cs : Calls) :
    (cs.run Thread.start).tlsCurrentSandbox = none :=
  (cs.run_spec _ within_start).1.tls

theorem run_passed_iff (cs : Calls) :
    (∀ p ∈ (cs.run Thread.start).passed, p.1 = p.2) ↔ cs.Covered [] := by
  rw [(cs.run_spec _ within_start).2]
  simp [Thread.start]

/-- Every callback that takes a sandbox is given its caller exactly when the calls
that set no thread-local are nested as `Covered` says. -/
theorem givenCaller_iff (cs : Calls) :
    GivenCaller (cs.run Thread.start) ↔ cs.Covered [] := by
  rw [GivenCaller, run_passed_iff]
  exact and_iff_left (run_tlsCurrentSandbox cs)

mutual

/-- Only entry points that set the thread-local are in use. -/
def Calls.AllGuarded : Calls → Prop
  | .nil => True
  | .call _ e fn rest => e.guarded = true ∧ fn.AllGuarded ∧ rest.AllGuarded

def Callbacks.AllGuarded : Callbacks → Prop
  | .nil => True
  | .callback _ body rest => body.AllGuarded ∧ rest.AllGuarded

end

/-- The innermost call set the thread-local. -/
def HeadGuarded (outer : List Enclosing) : Prop := ∀ e ∈ outer.head?, e.guarded = true

theorem scope_of_headGuarded (h : HeadGuarded outer) :
    scope outer = outer.head?.map Enclosing.sandbox := by
  cases outer with
  | nil => rfl
  | cons e outer => simp [scope, h e rfl]

mutual

theorem Calls.AllGuarded.covered {outer : List Enclosing} {cs : Calls}
    (h : cs.AllGuarded) (ho : HeadGuarded outer) : cs.Covered outer :=
  match cs, h with
  | .nil, _ => trivial
  | .call _ _ _ _, ⟨he, hfn, hrest⟩ => ⟨hfn.covered (by simp [HeadGuarded, he]), hrest.covered ho⟩

theorem Callbacks.AllGuarded.covered {outer : List Enclosing} {cs : Callbacks}
    (h : cs.AllGuarded) (ho : HeadGuarded outer) : cs.Covered outer :=
  match cs, h with
  | .nil, _ => trivial
  | .callback _ _ _, ⟨hbody, hrest⟩ =>
      ⟨fun _ => scope_of_headGuarded ho, hbody.covered ho, hrest.covered ho⟩

end

/-- Where every call sets the thread-local every callback gets its caller. -/
theorem Calls.AllGuarded.givenCaller {cs : Calls} (h : cs.AllGuarded) :
    GivenCaller (cs.run Thread.start) :=
  ⟨(run_passed_iff cs).mpr (h.covered (by simp [HeadGuarded])), run_tlsCurrentSandbox cs⟩

/-- A callback of the sandbox at 1 calls the sandbox at 2 through a context and a
function pointer, and the function called there makes a callback of its own. -/
def crossCall : Calls :=
  .call ⟨.passthrough, 1⟩ .pointer
    (.callback true
      (.call ⟨.passthrough, 2⟩ .ctxPointer (.callback true .nil .nil) .nil)
      .nil)
    .nil

/-- The inner callback is given the sandbox at 1. -/
theorem crossCall_not_givenCaller : ¬GivenCaller (crossCall.run Thread.start) := by
  decide

end LfiRuntime.CurrentSandbox
