import LfiRuntime.Sbox.OwnSlot

/-!
The public operations of `Sandbox<LFI>` and of its `CallContext`, and which of
them dereference a context that is null.
-/

namespace LfiRuntime.ThreadCtx

open LfiRuntime.Runs

/-- `checked_mul`, and `__builtin_mul_overflow`, on `size_t`. -/
def checkedMul (count size : Nat) : Bool := count * size < 2 ^ 64

inductive Op
  | callName
  | callTypedName
  | fnHandle
  | callCtxName
  | callCtxTypedName
  | alloc (count size : Nat)
  | calloc (count size : Nat)
  | realloc (count size : Nat)
  | free
  | idmemAlloc (count size : Nat)
  | idmemReset (allocations : Nat)
  | copyString (len : Nat)
  | context
  | contextOut
  | contextIn
  | contextInout
  | contextEnd
deriving DecidableEq, Repr

/-! What each does with the context of the thread, in order. -/

/-- The trampoline clones too, where the context is still null. -/
def callPtr : List Access := [.obtain, .regs, .obtain]

/-- `lfi_lib_malloc`, `lfi_lib_realloc` and `lfi_lib_free`. -/
def lfiLib : List Access := [.obtain]

/-- `lfi_lib_calloc` checks the product once it has the pointer. -/
def lfiLibCalloc (count size : Nat) : List Access :=
  .get :: if checkedMul count size then [.obtain] else []

def allocAccesses (count size : Nat) : List Access :=
  if checkedMul count size then lfiLib else []

def stackSave : List Access := [.regs]

def stackPush : List Access := [.regs]

def stackRestore : List Access := [.regs]

def Op.accesses : Op → List Access
  | .callName | .callTypedName | .fnHandle | .callCtxName | .callCtxTypedName => callPtr
  | .alloc count size | .realloc count size | .idmemAlloc count size => allocAccesses count size
  | .calloc count size => lfiLibCalloc count size
  | .free => lfiLib
  | .idmemReset allocations => (List.replicate allocations lfiLib).flatten
  | .copyString len => allocAccesses (len + 1) 1
  | .context => stackSave
  | .contextOut | .contextIn | .contextInout => stackPush
  | .contextEnd => stackRestore

/-- `none` is a null context dereferenced. -/
def State.perform (s : State) (t a : Nat) : List Access → Option State
  | [] => some s
  | acc :: accs =>
    match s.threads t, s.sandboxes a with
    | some T, some S =>
      if acc = .regs ∧ (getThreadCtx s.nextNode a S T).read = some none then none
      else (s.access t a S T acc).perform t a accs
    | _, _ => some s

/-- The operations on a `CallContext`. -/
def Op.onContext : Op → Bool
  | .context | .contextOut | .contextIn | .contextInout | .contextEnd => true
  | _ => false

/-- The thread has the id of the main thread of the sandbox, or is attached to it:
it has called into it, or allocated there, and has not detached since. -/
def Attached (S : Sandbox) (T : Thread) : Prop :=
  S.mainThreadTid = T.tid ∨ ∃ c, (S.id, c) ∈ T.attachedCtxs

variable {s s' : State} {t a : Nat} {S : Sandbox} {T T' : Thread} {slot : Slot}

theorem Phase.mayCall_of_running {p : Phase} (h : p = .running) : p.mayCall := h ▸ trivial

/-- The slot of a running thread holds a context where the thread is attached. -/
theorem Gets.ctx_eq_none_iff (h : Gets s a S T slot T') (hpair : PairOk s a S T)
    (hrun : T.phase = .running) : slot.ctx = none ↔ ¬Attached S T := by
  constructor
  · rintro hnull hattached
    obtain ⟨hmain, -, hnone⟩ := h.not_attached hpair (Phase.mayCall_of_running hrun)
      (by simp [hrun]) hnull
    rcases hattached with heq | ⟨c, hc⟩
    · exact hmain heq
    · exact hnone c hc
  · intro hnot
    rw [Attached, not_or, not_exists] at hnot
    rcases hctx : slot.ctx with _ | c
    · rfl
    · exact absurd (h.ctx_attached hpair (Phase.mayCall_of_running hrun) hnot.1 hctx) (hnot.2 c)

/-- The thread and the sandbox after an access, as far as the next one sees. -/
structure After (s : State) (t a : Nat) (S : Sandbox) (T : Thread) : Prop where
  inv : Inv s
  thread : s.threads t = some T
  sandbox : s.sandboxes a = some S
  running : T.phase = .running

/-- One access: it dereferences a null context where it reads the registers of
one on a thread that is not attached, and `lfi_clone` attaches. -/
theorem After.access (h : After s t a S T) (acc : Access) :
    ((getThreadCtx s.nextNode a S T).read = some none ↔ ¬Attached S T) ∧
      ∃ S' T', After (s.access t a S T acc) t a S' T' ∧
        (acc ≠ .obtain → (Attached S' T' ↔ Attached S T)) ∧
          (acc = .obtain → Attached S' T') := by
  have hpair := h.inv.pair t T a S h.thread h.sandbox
  have hcall := Phase.mayCall_of_running h.running
  have hclean : T.phase = .cleaned → S.mainThreadTid = T.tid := by simp [h.running]
  obtain ⟨slot, T', hget, hgets⟩ := getThreadCtx_spec hpair hcall hclean
  have hinv := access_inv acc h.inv h.thread h.sandbox hcall hclean
  have hnull := hgets.ctx_eq_none_iff hpair h.running
  have hkept : Attached (S.setSlot T.tid (some slot)) T' ↔ Attached S T := by
    rw [Attached, Attached, hgets.tid, hgets.attachedCtxs]
    rfl
  have hphase : T'.phase = .running := hgets.phase.trans h.running
  refine ⟨by rw [hget, hgets.read, Option.some.injEq, hnull], ?_⟩
  cases acc with
  | get =>
      simp only [State.access, hget] at hinv ⊢
      exact ⟨_, T', ⟨hinv, Function.update_self .., Function.update_self .., hphase⟩,
        fun _ => hkept, fun h => absurd h (by decide)⟩
  | regs =>
      simp only [State.access, hget] at hinv ⊢
      exact ⟨_, T', ⟨hinv, Function.update_self .., Function.update_self .., hphase⟩,
        fun _ => hkept, fun h => absurd h (by decide)⟩
  | obtain =>
      simp only [State.access, hget] at hinv ⊢
      rw [hgets.obtain_eq] at hinv ⊢
      split at hinv
      · rename_i hctx
        rw [if_pos hctx]
        have hattached : Attached (S.setSlot T.tid (some ⟨slot.node, some s.nextCtx⟩))
            (T'.cloned S s.nextCtx) := .inr ⟨s.nextCtx, List.mem_cons_self ..⟩
        exact ⟨_, T'.cloned S s.nextCtx, ⟨hinv, Function.update_self .., Function.update_self ..,
          hphase⟩, fun h => absurd rfl h, fun _ => hattached⟩
      · rename_i hctx
        rw [if_neg hctx]
        have hattached := hkept.mpr (not_not.mp (mt hnull.mpr hctx))
        exact ⟨_, T', ⟨hinv, Function.update_self .., Function.update_self .., hphase⟩,
          fun h => absurd rfl h, fun _ => hattached⟩

/-- No access before `lfi_clone` reads the registers of a context. -/
def ObtainsFirst (accs : List Access) : Prop :=
  (accs.dropWhile fun acc => acc = .get).head? ≠ some .regs

/-- What a list of accesses does, by induction on it. -/
theorem After.perform_eq_none_iff (accs : List Access) (h : After s t a S T) :
    s.perform t a accs = none ↔ ¬Attached S T ∧ ¬ObtainsFirst accs := by
  induction accs generalizing s S T with
  | nil => simp [State.perform, ObtainsFirst]
  | cons acc accs ih =>
      obtain ⟨hnull, S', T', hafter, hkept, hobtain⟩ := h.access acc
      rw [State.perform, h.thread, h.sandbox]
      simp only
      cases acc with
      | get =>
          rw [if_neg (by simp), ih hafter, hkept (by simp)]
          simp [ObtainsFirst]
      | obtain =>
          rw [if_neg (by simp), ih hafter]
          simp [ObtainsFirst, hobtain rfl]
      | regs =>
          split
          · rename_i hread
            simp [ObtainsFirst, hnull.mp hread.2]
          · rename_i hread
            have hattached : Attached S T := not_not.mp fun hnot => hread ⟨rfl, hnull.mpr hnot⟩
            rw [ih hafter, hkept (by simp)]
            simp [hattached]

theorem Op.obtainsFirst_iff (op : Op) : ObtainsFirst op.accesses ↔ op.onContext = false := by
  cases op with
  | alloc count size | realloc count size | idmemAlloc count size =>
      simp only [accesses, allocAccesses, onContext]
      split <;> simp [ObtainsFirst, lfiLib]
  | calloc count size =>
      simp only [accesses, lfiLibCalloc, onContext]
      split <;> simp [ObtainsFirst]
  | copyString len =>
      simp only [accesses, allocAccesses, onContext]
      split <;> simp [ObtainsFirst, lfiLib]
  | idmemReset allocations =>
      cases allocations <;> simp [ObtainsFirst, accesses, lfiLib, onContext, List.replicate_succ]
  | _ => simp [ObtainsFirst, accesses, callPtr, lfiLib, stackSave, stackPush, stackRestore,
      onContext]

/-- A public operation dereferences no null context exactly when it is none on a
`CallContext` or the thread is attached, in whatever state it is called. -/
theorem perform_ne_none_iff (h : Reaches Step Ok State.init s) (ht : s.threads t = some T)
    (hrun : T.phase = .running) (ha : s.sandboxes a = some S) (op : Op) :
    s.perform t a op.accesses ≠ none ↔ (op.onContext = true → Attached S T) := by
  have hafter : After s t a S T := ⟨reaches_inv h, ht, ha, hrun⟩
  rw [Ne, hafter.perform_eq_none_iff, op.obtainsFirst_iff]
  cases op.onContext <;> simp

/-- On the thread 1, which is attached, a `CallContext` may be made. -/
theorem attachedWorker_context : ∃ S T, attachedWorker.sandboxes 5 = some S ∧
    attachedWorker.threads 1 = some T ∧
      (attachedWorker.perform 1 5 Op.context.accesses ≠ none ↔
        (Op.context.onContext = true → Attached S T)) :=
  ⟨_, _, rfl, rfl, perform_ne_none_iff attachedWorker_reaches rfl rfl rfl .context⟩

/-- On the thread 1 `context()` is the first operation. -/
theorem idleWorker_context_null : ∃ s, Reaches Step Ok State.init s ∧
    s.perform 1 5 Op.context.accesses = none :=
  ⟨idleWorker, idleWorker_reaches, rfl⟩

end LfiRuntime.ThreadCtx
