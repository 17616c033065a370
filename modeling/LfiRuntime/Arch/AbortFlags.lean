import LfiRuntime.Arch.Nesting

/-!
The flags of aborted callbacks, over runs of invocations and callbacks on one
context: `abort_callback`, which `lfi_ctx_abort_cb` sets and the return of a
callback reads, and `abort_status`, which `lfi_ctx_abort_cb_status` reports.
-/

namespace LfiRuntime.AbortFlags

open LfiRuntime.BlockMemory
open LfiRuntime.Layout
open LfiRuntime.Runs
open LfiRuntime.Transitions (Arch InBox Invoked Returning BoxCode hostStack)

/-- A transition not yet undone. A callback has the state it was made in, the
host stack pointer there, and whether it has called `lfi_ctx_abort_cb`. -/
inductive Call (S : Type)
  | invoke
  | callback (withStruct : Bool) (entry : S) (base : Int) (requested : Bool)

/-- A callback that has returned. -/
structure Outcome where
  requested : Bool
  aborted : Bool
deriving DecidableEq, Repr

/-- The state, with what has happened to the callbacks of the run. -/
structure Cfg (S : Type) where
  state : S
  calls : List (Call S)
  /-- A request has been made and no callback aborted since. -/
  pending : Bool
  /-- Some callback has been aborted. -/
  ever : Bool
  /-- The callback that returned last. -/
  last : Option Outcome

inductive Label
  | host
  | box
  | request
  | invoke (withStruct : Bool)
  | ret
  | callback (withStruct : Bool)
  | callbackEnd
  | abort
deriving DecidableEq, Repr

variable {S : Type} (A : Arch S) (c th : Nat)

/-- `abort_status` follows `abort_callback` in `struct LFIContext`. -/
def statusCell : W := .ptr (.ctx c) (A.abortCell + 8)

def Status (s : S) : Prop := A.mem s (statusCell A c) = .int 1#64

/-- Neither flag is written. -/
structure SameFlags (s t : S) : Prop where
  callback : A.mem t (.ptr (.ctx c) A.abortCell) = A.mem s (.ptr (.ctx c) A.abortCell)
  status : A.mem t (statusCell A c) = A.mem s (statusCell A c)

/-- Host code runs. -/
def OnHost (cs : List (Call S)) : Prop := ∀ d ∈ cs.head?, d ≠ .invoke

/-- The steps. Host code may do anything but write to the flags, other than by
`request`, a call of `lfi_ctx_abort_cb` by a callback. -/
inductive Step : Cfg S → Label → Cfg S → Prop
  | host {s t cs p v o} (hcs : OnHost cs) (hflags : SameFlags A c s t) :
      Step ⟨s, cs, p, v, o⟩ .host ⟨t, cs, p, v, o⟩
  | box {s t cs p v o} (hcode : BoxCode A c s t) :
      Step ⟨s, .invoke :: cs, p, v, o⟩ .box ⟨t, .invoke :: cs, p, v, o⟩
  | request {s t ws e k q cs p v o}
      (hset : A.mem t = (A.mem s).set (.ptr (.ctx c) A.abortCell) (.int 1#64)) :
      Step ⟨s, .callback ws e k q :: cs, p, v, o⟩ .request
        ⟨t, .callback ws e k true :: cs, true, v, o⟩
  | invoke {s cs p v o k} (ws : Bool) (hcs : OnHost cs) (hcall : Invoked A c th s k) :
      Step ⟨s, cs, p, v, o⟩ (.invoke ws) ⟨A.lfiTrampoline ws s, .invoke :: cs, p, v, o⟩
  | ret {s cs p v o} (hbox : InBox A c th s) :
      Step ⟨s, .invoke :: cs, p, v, o⟩ .ret ⟨A.lfiRet s, cs, p, v, o⟩
  | callback {s cs p v o k} (ws : Bool) (hbox : InBox A c th s)
      (hsp : A.hostSp c s = hostStack th k) :
      Step ⟨s, .invoke :: cs, p, v, o⟩ (.callback ws)
        ⟨A.lfiCallback ws s, .callback ws s k false :: .invoke :: cs, p, v, o⟩
  | callbackEnd {s ws e k q cs p v o}
      (hret : Returning A c th (.callback ws) e k (A.lfiCallback ws) s)
      (habort : ¬A.Aborted c s) :
      Step ⟨s, .callback ws e k q :: cs, p, v, o⟩ .callbackEnd
        ⟨A.lfiCallbackEnd ws s, cs, p, v, some ⟨q, false⟩⟩
  | abort {s ws e k q cs p v o}
      (hret : Returning A c th (.callback ws) e k (A.lfiCallback ws) s)
      (habort : A.Aborted c s) :
      Step ⟨s, .callback ws e k q :: .invoke :: cs, p, v, o⟩ .abort
        ⟨A.lfiCallbackEnd ws s, cs, false, true, some ⟨q, true⟩⟩

/-- What the transition code does to the flags. -/
structure Lawful : Prop where
  invoke : ∀ ws s k, Invoked A c th s k → SameFlags A c s (A.lfiTrampoline ws s)
  ret : ∀ s, InBox A c th s → SameFlags A c s (A.lfiRet s)
  callback : ∀ ws s k, InBox A c th s → A.hostSp c s = hostStack th k →
    SameFlags A c s (A.lfiCallback ws s)
  callbackEnd : ∀ ws s e k, Returning A c th (.callback ws) e k (A.lfiCallback ws) s →
    ¬A.Aborted c s → SameFlags A c s (A.lfiCallbackEnd ws s)
  abort : ∀ ws s e k, Returning A c th (.callback ws) e k (A.lfiCallback ws) s →
    A.Aborted c s →
      A.mem (A.lfiCallbackEnd ws s) (.ptr (.ctx c) A.abortCell) = .int 0#64 ∧
        Status A c (A.lfiCallbackEnd ws s)

/-- The flags and the history. -/
structure Inv (cfg : Cfg S) : Prop where
  pending : A.Aborted c cfg.state ↔ cfg.pending = true
  ever : Status A c cfg.state ↔ cfg.ever = true

/-- The status describes the callback that returned last, and that one was
aborted just when it had asked for it. -/
def Right (cfg : Cfg S) : Prop :=
  ∀ o ∈ cfg.last, (Status A c cfg.state ↔ o.aborted = true) ∧ o.aborted = o.requested

/-- A callback returns: the request that is pending is its own, and if some
callback was aborted before then so is this one. -/
def ReturnsAlone (cfg : Cfg S) (l : Label) : Prop :=
  l ∈ [.callbackEnd, .abort] → ∀ ws e k q cs, cfg.calls = .callback ws e k q :: cs →
    cfg.pending = q ∧ (cfg.ever = true → q = true)

/-- What a run tells of its callbacks. -/
structure StatusTells : Prop where
  /-- In any run the flags are the history. -/
  flags : ∀ s cfg, ¬A.Aborted c s → ¬Status A c s →
    Reaches (Step A c th) anyStep ⟨s, [], false, false, none⟩ cfg → Inv A c cfg
  /-- The return of a callback leaves the status right just when it is alone. -/
  returns : ∀ s cfg l cfg', ¬A.Aborted c s → ¬Status A c s →
    Reaches (Step A c th) anyStep ⟨s, [], false, false, none⟩ cfg → Step A c th cfg l cfg' →
    l ∈ [.callbackEnd, .abort] → (Right A c cfg' ↔ ReturnsAlone cfg l)
  /-- Where every callback returns alone the status is right at all times. -/
  runs : ∀ s cfg, ¬A.Aborted c s → ¬Status A c s →
    Reaches (Step A c th) ReturnsAlone ⟨s, [], false, false, none⟩ cfg → Right A c cfg

variable {A c th} {s t : S} {cfg cfg' : Cfg S} {l : Label} {cs cs' : List (Call S)} {p v p' : Bool}
  {o : Option Outcome}

theorem SameFlags.aborted (h : SameFlags A c s t) : A.Aborted c t ↔ A.Aborted c s := by
  rw [Arch.Aborted, Arch.Aborted, h.callback]

theorem SameFlags.statusSet (h : SameFlags A c s t) : Status A c t ↔ Status A c s := by
  rw [Status, Status, h.status]

theorem Inv.same (h : Inv A c ⟨s, cs, p, v, o⟩) (hflags : SameFlags A c s t)
    (cs' : List (Call S)) (o' : Option Outcome) : Inv A c ⟨t, cs', p, v, o'⟩ :=
  ⟨hflags.aborted.trans h.pending, hflags.statusSet.trans h.ever⟩

theorem right_same (hflags : SameFlags A c s t) (cs' : List (Call S)) (p' : Bool) :
    Right A c ⟨t, cs', p', v, o⟩ ↔ Right A c ⟨s, cs, p, v, o⟩ := by
  simp only [Right, hflags.statusSet]

theorem sameFlags_of_boxCode (h : BoxCode A c s t) : SameFlags A c s t :=
  ⟨h.mem _ _ (by simp), h.mem _ _ (by simp)⟩

theorem status_request (hset : A.mem t = (A.mem s).set (.ptr (.ctx c) A.abortCell) (.int 1#64)) :
    Status A c t ↔ Status A c s := by
  rw [Status, Status, hset, Cells.set_of_ne]
  simp [statusCell]

theorem aborted_request (hset : A.mem t = (A.mem s).set (.ptr (.ctx c) A.abortCell) (.int 1#64)) :
    A.Aborted c t := by
  rw [Arch.Aborted, hset, Cells.set_self]

theorem not_aborted_of_clear (h : A.mem s (.ptr (.ctx c) A.abortCell) = .int 0#64) :
    ¬A.Aborted c s := by
  rw [Arch.Aborted, h]
  decide

theorem inv_step (hA : Lawful A c th) (h : Inv A c cfg) (hstep : Step A c th cfg l cfg') :
    Inv A c cfg' := by
  cases hstep with
  | host hcs hflags => exact h.same hflags _ _
  | box hcode => exact h.same (sameFlags_of_boxCode hcode) _ _
  | request hset =>
      exact ⟨by simp [aborted_request hset], (status_request hset).trans h.ever⟩
  | invoke ws hcs hcall => exact h.same (hA.invoke ws _ _ hcall) _ _
  | ret hbox => exact h.same (hA.ret _ hbox) _ _
  | callback ws hbox hsp => exact h.same (hA.callback ws _ _ hbox hsp) _ _
  | callbackEnd hret habort => exact h.same (hA.callbackEnd _ _ _ _ hret habort) _ _
  | abort hret habort =>
      obtain ⟨hclear, hset⟩ := hA.abort _ _ _ _ hret habort
      exact ⟨by simp [not_aborted_of_clear hclear], by simp [hset]⟩

/-- The return of a callback, which is aborted when a request is pending. -/
theorem right_return_iff (hA : Lawful A c th) (h : Inv A c cfg)
    (hstep : Step A c th cfg l cfg') (hl : l ∈ [.callbackEnd, .abort]) :
    Right A c cfg' ↔ ReturnsAlone cfg l := by
  have hinv := inv_step hA h hstep
  have hever := hinv.ever
  cases hstep
  case callbackEnd s ws e k q cs p v o hret habort =>
    have hp : p = false := Bool.eq_false_of_not_eq_true (mt h.pending.mpr habort)
    simp only [Right, ReturnsAlone, Option.mem_def, Option.some.injEq, forall_eq', hl,
      List.cons.injEq, Call.callback.injEq, and_imp, hever, hp, forall_const]
    constructor
    · rintro ⟨hstatus, rfl⟩ _ _ _ _ _ _ _ _ rfl _
      exact ⟨rfl, hstatus.mp⟩
    · intro hcond
      obtain ⟨rfl, hstatus⟩ := hcond ws e k q cs rfl rfl rfl rfl rfl
      exact ⟨⟨hstatus, fun h => absurd h Bool.false_ne_true⟩, rfl⟩
  case abort s ws e k q cs p v o hret habort =>
    have hp : p = true := h.pending.mp habort
    simp only [Right, ReturnsAlone, Option.mem_def, Option.some.injEq, forall_eq', hl,
      List.cons.injEq, Call.callback.injEq, and_imp, hever, hp, forall_const]
    constructor
    · rintro ⟨-, rfl⟩ _ _ _ _ _ _ _ _ rfl _
      exact ⟨rfl, fun _ => rfl⟩
    · intro hcond
      obtain ⟨rfl, -⟩ := hcond ws e k q _ rfl rfl rfl rfl rfl
      exact ⟨trivial, rfl⟩
  all_goals simp at hl

theorem right_step (hA : Lawful A c th) (h : Inv A c cfg) (hright : Right A c cfg)
    (hok : ReturnsAlone cfg l) (hstep : Step A c th cfg l cfg') : Right A c cfg' := by
  by_cases hl : l ∈ [.callbackEnd, .abort]
  · exact (right_return_iff hA h hstep hl).mpr hok
  cases hstep with
  | host hcs hflags => exact (right_same hflags _ _).mpr hright
  | box hcode => exact (right_same (sameFlags_of_boxCode hcode) _ _).mpr hright
  | request hset =>
      intro o ho
      rw [status_request hset]
      exact hright o ho
  | invoke ws hcs hcall => exact (right_same (hA.invoke ws _ _ hcall) _ _).mpr hright
  | ret hbox => exact (right_same (hA.ret _ hbox) _ _).mpr hright
  | callback ws hbox hsp => exact (right_same (hA.callback ws _ _ hbox hsp) _ _).mpr hright
  | callbackEnd hret habort => exact absurd (by simp) hl
  | abort hret habort => exact absurd (by simp) hl

theorem inv_start (habort : ¬A.Aborted c s) (hstatus : ¬Status A c s) :
    Inv A c ⟨s, [], false, false, none⟩ :=
  ⟨by simp [habort], by simp [hstatus]⟩

theorem inv_of_reaches (hA : Lawful A c th) (habort : ¬A.Aborted c s) (hstatus : ¬Status A c s)
    (hrun : Reaches (Step A c th) anyStep ⟨s, [], false, false, none⟩ cfg) : Inv A c cfg :=
  hrun.invariant (inv_start habort hstatus) fun _ _ _ h _ hstep => inv_step hA h hstep

theorem statusTells (hA : Lawful A c th) : StatusTells A c th where
  flags s cfg habort hstatus hrun := inv_of_reaches hA habort hstatus hrun
  returns s cfg l cfg' habort hstatus hrun hstep hl :=
    right_return_iff hA (inv_of_reaches hA habort hstatus hrun) hstep hl
  runs s cfg habort hstatus hrun := by
    have hstart : Inv A c ⟨s, [], false, false, none⟩ ∧ Right A c ⟨s, [], false, false, none⟩ :=
      ⟨inv_start habort hstatus, by rintro _ ⟨⟩⟩
    have hkeep : ∀ cfg l cfg', Inv A c cfg ∧ Right A c cfg → ReturnsAlone cfg l →
        Step A c th cfg l cfg' → Inv A c cfg' ∧ Right A c cfg' := by
      rintro cfg l cfg' ⟨h, hright⟩ hok hstep
      exact ⟨inv_step hA h hstep, right_step hA h hright hok hstep⟩
    exact (hrun.invariant hstart hkeep).2

end LfiRuntime.AbortFlags
