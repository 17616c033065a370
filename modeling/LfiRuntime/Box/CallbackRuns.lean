import LfiRuntime.Lib.Runs
import LfiRuntime.Box.CallbackInit

/-!
Runs of registrations and removals. A slot is looked up by its function alone, and the
trampoline is stored when the slot is taken.
-/

namespace LfiRuntime.Callbacks

open LfiRuntime.Box
open LfiRuntime.Config
open LfiRuntime.HostCalls
open LfiRuntime.Mmap
open LfiRuntime.PagedMemory
open LfiRuntime.Runs

/-- The slots in use have a function each, and an entry that leads to it. -/
structure Consistent (e : Engine) (address : Trampoline → BitVec 64) (s : State) (f : Int) :
    Prop where
  ready : Ready e s f
  distinct : ∀ i j, s.callbacks i ≠ 0 → s.callbacks i = s.callbacks j → i = j
  free : ∀ i, s.callbacks i = 0 → entryWords e.target (s.host.mem.files f) i = (0, 0)
  taken : ∀ i, s.callbacks i ≠ 0 →
    ∃ kind, entryWords e.target (s.host.mem.files f) i = (s.callbacks i, address kind)

/-- No call of `init_cb` has succeeded. -/
structure Blank (s : State) : Prop where
  entries : s.cbinfo.entries = 0
  callbacks : ∀ i, s.callbacks i = 0

/-- A box as `lfi_box_new` gives it, perhaps after failed registrations. -/
structure Usable (e : Engine) (r : Region) (s : State) : Prop where
  works : Works e r s.box
  pos : 0 < s.box.min

variable {e : Engine} {r : Region} {address : Trampoline → BitVec 64} {s : State} {a : Answers}
  {f : Int} {fn target trampoline : BitVec 64} {kind : Trampoline} {slot : Slot}

theorem Usable.of_box {s' : State} (hu : Usable e r s) (hbox : s'.box = s.box) : Usable e r s' :=
  ⟨hbox ▸ hu.works, hbox ▸ hu.pos⟩

theorem cbfind_eq_some (h : cbfind s fn = some slot) : s.callbacks slot = fn :=
  of_decide_eq_true (Fin.eq_true_of_find?_eq_some h)

theorem cbfind_eq_none (h : cbfind s fn = none) (i : Slot) : s.callbacks i ≠ fn :=
  of_decide_eq_false (Fin.eq_false_of_find?_eq_none h i)

theorem cbfreeslot_eq_some (h : cbfreeslot s = some slot) : s.callbacks slot = 0 :=
  of_decide_eq_true (Fin.eq_true_of_find?_eq_some h)

theorem cbfreeslot_eq_none (h : cbfreeslot s = none) (i : Slot) : s.callbacks i ≠ 0 :=
  of_decide_eq_false (Fin.eq_false_of_find?_eq_none h i)

/-- A slot is taken, or given back. -/
def assign (e : Engine) (s : State) (slot : Slot) (fn target trampoline : BitVec 64) : State :=
  { setEntry e s slot target trampoline with
    callbacks := Function.update s.callbacks slot fn }

theorem Ready.with_callbacks (h : Ready e s f) (callbacks : Slot → BitVec 64) :
    Ready e { s with callbacks := callbacks } f :=
  ⟨h.entries, h.aliasCell, h.dataCell, h.code, h.apart, h.exec, h.readable⟩

theorem Ready.assign (h : Ready e s f) (slot : Slot) (fn target trampoline : BitVec 64) :
    Ready e (assign e s slot fn target trampoline) f :=
  (h.setEntry slot target trampoline).with_callbacks _

theorem entryWords_assign (h : Ready e s f) (slot i : Slot) (fn target trampoline : BitVec 64) :
    entryWords e.target ((assign e s slot fn target trampoline).host.mem.files f) i =
      if i = slot then (target, trampoline) else entryWords e.target (s.host.mem.files f) i := by
  rw [← entryWords_setWords, Callbacks.assign, setEntry_eq h]
  simp only [Function.update_self]

/-- What a registration does once the entries are in place. -/
theorem registerCb_cases (hne : s.cbinfo.entries ≠ 0) (a : Answers) (fn : BitVec 64)
    (kind : Trampoline) :
    let u := registerCb e address s a fn kind
    (∃ slot, s.callbacks slot = fn ∧ u = (some (entryAddr e s slot), s)) ∨
      (∀ i, s.callbacks i ≠ fn) ∧
        ((∀ i, s.callbacks i ≠ 0) ∧ u = (none, s) ∨
          ∃ slot, s.callbacks slot = 0 ∧
            u = (some (entryAddr e s slot), assign e s slot fn fn (address kind))) := by
  intro u
  simp only [u, registerCb, if_neg hne, Bool.not_true, Bool.false_eq_true, if_false]
  cases hfind : cbfind s fn with
  | some slot => exact .inl ⟨slot, cbfind_eq_some hfind, rfl⟩
  | none =>
      refine .inr ⟨cbfind_eq_none hfind, ?_⟩
      cases hfree : cbfreeslot s with
      | none => exact .inl ⟨cbfreeslot_eq_none hfree, rfl⟩
      | some slot => exact .inr ⟨slot, cbfreeslot_eq_some hfree, rfl⟩

/-- The first registration is one with the entries in place, where `init_cb` succeeds. -/
theorem registerCb_init (h0 : s.cbinfo.entries = 0) (a : Answers) (fn : BitVec 64)
    (kind : Trampoline) (hne : (initCb e s a).1 = true → (initCb e s a).2.cbinfo.entries ≠ 0) :
    registerCb e address s a fn kind =
      if (initCb e s a).1 then registerCb e address (initCb e s a).2 a fn kind
      else (none, (initCb e s a).2) := by
  cases hok : (initCb e s a).1 with
  | false => simp [registerCb, h0, hok]
  | true => simp [registerCb, h0, hok, hne hok]

theorem unregister_of_cbfind : ∀ F, lfiBoxUnregisterCb = F → ∀ e s fn,
    (cbfind s fn = none → F e s fn = s) ∧
      ∀ slot, cbfind s fn = some slot → F e s fn = assign e s slot 0 0 0 := by
  delta lfiBoxUnregisterCb
  rintro F rfl e s fn
  beta_reduce
  -- the search is not to be evaluated
  generalize cbfind s fn = found
  constructor
  · rintro rfl
    rfl
  · rintro slot rfl
    rfl

theorem unregister_cases (e : Engine) (s : State) (fn : BitVec 64) :
    (∀ i, s.callbacks i ≠ fn) ∧ lfiBoxUnregisterCb e s fn = s ∨
      ∃ slot, s.callbacks slot = fn ∧ lfiBoxUnregisterCb e s fn = assign e s slot 0 0 0 := by
  obtain ⟨hnone, hsome⟩ := unregister_of_cbfind _ rfl e s fn
  cases hfind : cbfind s fn with
  | none => exact .inl ⟨cbfind_eq_none hfind, hnone hfind⟩
  | some slot => exact .inr ⟨slot, cbfind_eq_some hfind, hsome slot hfind⟩

namespace Consistent

theorem take (hc : Consistent e address s f) (slot : Slot) (hfn : fn ≠ 0)
    (hnew : ∀ i, s.callbacks i ≠ fn) (kind : Trampoline) :
    Consistent e address (assign e s slot fn fn (address kind)) f := by
  have hcallbacks : (assign e s slot fn fn (address kind)).callbacks =
      Function.update s.callbacks slot fn := rfl
  refine ⟨hc.ready.assign .., fun i j hi hij => ?_, fun i hi => ?_, fun i hi => ?_⟩
  · rw [hcallbacks, Function.update_apply, Function.update_apply] at hij
    rw [hcallbacks, Function.update_apply] at hi
    split_ifs at hij hi with hislot hjslot hjslot
    · rw [hislot, hjslot]
    · exact absurd hij.symm (hnew j)
    · exact absurd hij (hnew i)
    · exact hc.distinct i j hi hij
  · rw [hcallbacks, Function.update_apply] at hi
    rw [entryWords_assign hc.ready]
    split_ifs at hi ⊢ with hislot
    · exact absurd hi hfn
    · exact hc.free i hi
  · rw [hcallbacks, Function.update_apply] at hi ⊢
    rw [entryWords_assign hc.ready]
    split_ifs at hi ⊢ with hislot
    · exact ⟨kind, rfl⟩
    · exact hc.taken i hi

theorem release (hc : Consistent e address s f) (slot : Slot) :
    Consistent e address (assign e s slot 0 0 0) f := by
  have hcallbacks : (assign e s slot 0 0 0).callbacks = Function.update s.callbacks slot 0 := rfl
  refine ⟨hc.ready.assign .., fun i j hi hij => ?_, fun i hi => ?_, fun i hi => ?_⟩
  · rw [hcallbacks, Function.update_apply] at hi
    rw [hcallbacks, Function.update_apply, Function.update_apply] at hij
    split_ifs at hi with hislot
    · exact absurd rfl hi
    · rw [if_neg hislot] at hij
      split_ifs at hij with hjslot
      · exact absurd hij hi
      · exact hc.distinct i j hi hij
  · rw [hcallbacks, Function.update_apply] at hi
    rw [entryWords_assign hc.ready]
    split_ifs at hi ⊢ with hislot
    · rfl
    · exact hc.free i hi
  · rw [hcallbacks, Function.update_apply] at hi ⊢
    rw [entryWords_assign hc.ready]
    split_ifs at hi ⊢ with hislot
    · exact absurd rfl hi
    · exact hc.taken i hi

end Consistent

/-! The calls of the host, with the requests whose function is still registered. -/

inductive Call
  | register (kind : Trampoline) (fn : BitVec 64) (answers : Answers)
  | unregister (fn : BitVec 64)

/-- A registration that succeeded, with the pointer that it returned. -/
structure Request where
  fn : BitVec 64
  kind : Trampoline
  ptr : Nat

structure Tracked where
  state : State
  live : List Request

section

variable (e : Engine) (address : Trampoline → BitVec 64)

def register (s : State) (a : Answers) (fn : BitVec 64) : Trampoline → Option Nat × State
  | .lfiCallback => lfiBoxRegisterCb e address s a fn
  | .lfiCallbackStruct => lfiBoxRegisterCbStruct e address s a fn

def Tracked.next (t : Tracked) : Call → Tracked
  | .register kind fn a =>
      let u := register e address t.state a fn kind
      ⟨u.2, (u.1.map (Request.mk fn kind)).toList ++ t.live⟩
  | .unregister fn => ⟨lfiBoxUnregisterCb e t.state fn, t.live.filter fun q => q.fn ≠ fn⟩

/-- What `assert(fn)` and the host promise. -/
def Call.Sound (box : LFIBox) : Call → Prop
  | .register _ fn a => fn ≠ 0 ∧ a.Sound e box
  | .unregister _ => True

def CallStep (t : Tracked) (c : Call) (t' : Tracked) : Prop :=
  c.Sound e t.state.box ∧ t' = t.next e address c

/-- The table serves the requests: a slot for the function of each, and no others. -/
structure Serves (t : Tracked) (f : Int) : Prop where
  consistent : Consistent e address t.state f
  slots : ∀ q ∈ t.live, q.fn ≠ 0 ∧
    ∃ slot, t.state.callbacks slot = q.fn ∧ q.ptr = entryAddr e t.state slot
  known : ∀ slot, t.state.callbacks slot ≠ 0 → ∃ q ∈ t.live, q.fn = t.state.callbacks slot

structure RunInv (r : Region) (t : Tracked) : Prop where
  usable : Usable e r t.state
  table : Blank t.state ∧ t.live = [] ∨ ∃ f, Serves e address t f

/-- A pointer dispatches the way it was requested. -/
def Dispatches (m : Memory) (q : Request) : Prop :=
  branch e m q.ptr = some (q.fn, address q.kind)

end

variable {t t' : Tracked} {c : Call} {q : Request}

theorem register_eq (s : State) (a : Answers) (fn : BitVec 64) (kind : Trampoline) :
    register e address s a fn kind = registerCb e address s a fn kind := by
  cases kind with
  | lfiCallback => rfl
  | lfiCallbackStruct => rfl

theorem branch_assign_self (h : Ready e s f) (slot : Slot) (fn target trampoline : BitVec 64) :
    branch e (assign e s slot fn target trampoline).host.mem (entryAddr e s slot) =
      some (target, trampoline) := by
  have hbranch := (h.assign slot fn target trampoline).branch slot
  rw [entryWords_assign h, if_pos rfl] at hbranch
  exact hbranch

theorem branch_assign_of_ne (h : Ready e s f) {i : Slot} (hne : i ≠ slot)
    (fn target trampoline : BitVec 64) :
    branch e (assign e s slot fn target trampoline).host.mem (entryAddr e s i) =
      branch e s.host.mem (entryAddr e s i) := by
  have hbranch := (h.assign slot fn target trampoline).branch i
  rw [entryWords_assign h, if_neg hne, ← h.branch i] at hbranch
  exact hbranch

namespace Serves

/-- What a call does to a table that is in place. -/
theorem register_cases (hs : Serves e address t f) (kind : Trampoline) (fn : BitVec 64)
    (a : Answers) :
    let t' := t.next e address (.register kind fn a)
    (∃ slot, t.state.callbacks slot = fn ∧
        t' = ⟨t.state, ⟨fn, kind, entryAddr e t.state slot⟩ :: t.live⟩) ∨
      (∀ i, t.state.callbacks i ≠ fn) ∧
        ((∀ i, t.state.callbacks i ≠ 0) ∧ t' = t ∨
          ∃ slot, t.state.callbacks slot = 0 ∧
            t' = ⟨assign e t.state slot fn fn (address kind),
              ⟨fn, kind, entryAddr e t.state slot⟩ :: t.live⟩) := by
  intro t'
  simp only [t', Tracked.next, register_eq]
  rcases @registerCb_cases e address _ hs.consistent.ready.entries a fn kind with
    ⟨slot, hslot, heq⟩ | ⟨hnew, ⟨hfull, heq⟩ | ⟨slot, hslot, heq⟩⟩
  · rw [heq]
    exact .inl ⟨slot, hslot, rfl⟩
  · rw [heq]
    exact .inr ⟨hnew, .inl ⟨hfull, rfl⟩⟩
  · rw [heq]
    exact .inr ⟨hnew, .inr ⟨slot, hslot, rfl⟩⟩

theorem next (hs : Serves e address t f) (hc : ∀ kind fn a, c = .register kind fn a → fn ≠ 0) :
    Serves e address (t.next e address c) f := by
  cases c with
  | register kind fn a =>
      have hfn := hc kind fn a rfl
      rcases hs.register_cases kind fn a with
        ⟨slot, hslot, heq⟩ | ⟨hnew, ⟨-, heq⟩ | ⟨slot, hslot, heq⟩⟩
      · rw [heq]
        refine ⟨hs.consistent, fun q hq => ?_, fun i hi => ?_⟩
        · rcases List.mem_cons.mp hq with rfl | hq
          · exact ⟨hfn, slot, hslot, rfl⟩
          · exact hs.slots q hq
        · obtain ⟨q, hq, hqfn⟩ := hs.known i hi
          exact ⟨q, List.mem_cons_of_mem _ hq, hqfn⟩
      · rw [heq]
        exact hs
      · rw [heq]
        refine ⟨hs.consistent.take slot hfn hnew kind, fun q hq => ?_, fun i hi => ?_⟩
        · rcases List.mem_cons.mp hq with rfl | hq
          · exact ⟨hfn, slot, Function.update_self .., rfl⟩
          · obtain ⟨hne, i, hi, hptr⟩ := hs.slots q hq
            have hislot : i ≠ slot := by
              rintro rfl
              exact hne (hi.symm.trans hslot)
            exact ⟨hne, i, (Function.update_of_ne hislot ..).trans hi, hptr⟩
        · by_cases hislot : i = slot
          · subst hislot
            have hself : (assign e t.state i fn fn (address kind)).callbacks i = fn :=
              Function.update_self ..
            exact ⟨_, List.mem_cons_self, hself.symm⟩
          · have hold : (assign e t.state slot fn fn (address kind)).callbacks i =
                t.state.callbacks i := Function.update_of_ne hislot ..
            dsimp only at hi ⊢
            rw [hold] at hi ⊢
            obtain ⟨q, hq, hqfn⟩ := hs.known i hi
            exact ⟨q, List.mem_cons_of_mem _ hq, hqfn⟩
  | unregister fn =>
      rw [Tracked.next]
      rcases unregister_cases e t.state fn with ⟨hnew, heq⟩ | ⟨slot, hslot, heq⟩
      · rw [heq]
        refine ⟨hs.consistent, fun q hq => hs.slots q (List.mem_of_mem_filter hq), fun i hi => ?_⟩
        obtain ⟨q, hq, hqfn⟩ := hs.known i hi
        exact ⟨q, List.mem_filter.mpr ⟨hq, by simpa [hqfn] using hnew i⟩, hqfn⟩
      · rw [heq]
        refine ⟨hs.consistent.release slot, fun q hq => ?_, fun i hi => ?_⟩
        · obtain ⟨hq, hqfn⟩ := List.mem_filter.mp hq
          obtain ⟨hne, i, hi, hptr⟩ := hs.slots q hq
          have hislot : i ≠ slot := by
            rintro rfl
            simp [← hi, hslot] at hqfn
          exact ⟨hne, i, (Function.update_of_ne hislot ..).trans hi, hptr⟩
        · have hislot : i ≠ slot := by
            rintro rfl
            exact hi (Function.update_self ..)
          have hold : (assign e t.state slot 0 0 0).callbacks i = t.state.callbacks i :=
            Function.update_of_ne hislot ..
          dsimp only at hi ⊢
          rw [hold] at hi ⊢
          obtain ⟨q, hq, hqfn⟩ := hs.known i hi
          refine ⟨q, List.mem_filter.mpr ⟨hq, ?_⟩, hqfn⟩
          have hne : t.state.callbacks i ≠ fn := fun heq' =>
            hislot (hs.consistent.distinct i slot hi (heq'.trans hslot.symm))
          simpa [hqfn] using hne

end Serves

/-! The first registration. -/

theorem initCb_idle (hu : Usable e r s) (hb : Blank s) (ha : a.Sound e s.box) :
    let u := initCb e s a
    Usable e r u.2 ∧ (u.1 = false ∧ Blank u.2 ∨
      u.1 = true ∧ ∃ f, Serves e address ⟨u.2, []⟩ f) := by
  intro u
  have hinit := initCb_spec hu.works hu.pos ha
  obtain ⟨mm, hbox⟩ := hinit.box_eq
  have hcallbacks : ∀ i, (initCb e s a).2.callbacks i = 0 := fun i =>
    (congrFun hinit.callbacks i).trans (hb.callbacks i)
  refine ⟨⟨hinit.works, ?_⟩, ?_⟩
  · rw [hbox]
    exact hu.pos
  · cases hok : (initCb e s a).1 with
    | false => exact .inl ⟨rfl, (hinit.entries hok).trans hb.entries, hcallbacks⟩
    | true =>
        obtain ⟨f, hready, hzero⟩ := hinit.ready hok
        exact .inr ⟨rfl, f, ⟨hready, fun i _ hi => absurd (hcallbacks i) hi, fun i _ => hzero i,
          fun i hi => absurd (hcallbacks i) hi⟩, fun q hq => absurd hq (List.not_mem_nil),
            fun i hi => absurd (hcallbacks i) hi⟩

/-- A registration on a box without entries fails, or it is one on a box with entries and no
registrations. -/
theorem next_of_blank (hu : Usable e r t.state) (hb : Blank t.state) (hlive : t.live = [])
    (ha : a.Sound e t.state.box) (kind : Trampoline) (fn : BitVec 64) :
    let s := (initCb e t.state a).2
    let t' := t.next e address (.register kind fn a)
    (t' = ⟨s, []⟩ ∧ Blank s ∧ Usable e r s) ∨
      (∃ f, Serves e address ⟨s, []⟩ f) ∧ Usable e r s ∧
        t' = Tracked.next e address ⟨s, []⟩ (.register kind fn a) := by
  intro s t'
  obtain ⟨husable, ⟨hok, hblank⟩ | ⟨hok, f, hserves⟩⟩ := @initCb_idle e r address _ _ hu hb ha
  · have hreg : registerCb e address t.state a fn kind = (none, s) := by
      rw [registerCb_init hb.entries a fn kind (by simp [hok]), hok]
      rfl
    refine .inl ⟨?_, hblank, husable⟩
    simp only [t', Tracked.next, register_eq, hreg, hlive]
    rfl
  · have hreg : registerCb e address t.state a fn kind = registerCb e address s a fn kind := by
      rw [registerCb_init hb.entries a fn kind fun _ => hserves.consistent.ready.entries, if_pos hok]
    refine .inr ⟨⟨f, hserves⟩, husable, ?_⟩
    simp only [t', Tracked.next, register_eq, hreg, hlive]

/-- A removal on a box without entries removes nothing. -/
theorem unregister_of_blank (hb : Blank s) (fn : BitVec 64) :
    Blank (lfiBoxUnregisterCb e s fn) ∧ (lfiBoxUnregisterCb e s fn).box = s.box := by
  rcases unregister_cases e s fn with ⟨-, heq⟩ | ⟨slot, -, heq⟩
  · rw [heq]
    exact ⟨hb, rfl⟩
  · rw [heq]
    refine ⟨⟨hb.entries, fun i => ?_⟩, rfl⟩
    by_cases hi : i = slot
    · subst hi
      exact Function.update_self ..
    · exact (Function.update_of_ne hi ..).trans (hb.callbacks i)

theorem box_next_serving (hs : Serves e address t f) (c : Call) :
    (t.next e address c).state.box = t.state.box := by
  cases c with
  | register kind fn a =>
      rcases hs.register_cases kind fn a with
        ⟨slot, -, heq⟩ | ⟨-, ⟨-, heq⟩ | ⟨slot, -, heq⟩⟩ <;> rw [heq]
      rfl
  | unregister fn =>
      rw [Tracked.next]
      rcases unregister_cases e t.state fn with ⟨-, heq⟩ | ⟨slot, -, heq⟩ <;> rw [heq]
      rfl

theorem Call.Sound.ne_zero {box : LFIBox} (hc : c.Sound e box) (kind : Trampoline)
    (fn : BitVec 64) (a : Answers) (heq : c = .register kind fn a) : fn ≠ 0 := by
  subst heq
  exact hc.1

theorem RunInv.next (hi : RunInv e address r t) (hstep : CallStep e address t c t') :
    RunInv e address r t' := by
  obtain ⟨hsound, rfl⟩ := hstep
  obtain ⟨hu, ⟨hb, hlive⟩ | ⟨f, hs⟩⟩ := hi
  · cases c with
    | register kind fn a =>
        rcases @next_of_blank e r address _ _ hu hb hlive hsound.2 kind fn with
          ⟨heq, hblank, husable⟩ | ⟨⟨f, hserves⟩, husable, heq⟩
        · rw [heq]
          exact ⟨husable, .inl ⟨hblank, rfl⟩⟩
        · rw [heq]
          exact ⟨husable.of_box (box_next_serving hserves _),
            .inr ⟨f, hserves.next hsound.ne_zero⟩⟩
    | unregister fn =>
        obtain ⟨hblank, hbox⟩ := @unregister_of_blank e t.state hb fn
        rw [Tracked.next, hlive]
        generalize lfiBoxUnregisterCb e t.state fn = s' at hblank hbox ⊢
        exact ⟨hu.of_box hbox, .inl ⟨hblank, rfl⟩⟩
  · exact ⟨hu.of_box (box_next_serving hs c), .inr ⟨f, hs.next hsound.ne_zero⟩⟩

/-! The kind of a pointer. -/

/-- No request for the function that is still good asked for the other kind. -/
def OneKind (t : Tracked) : Call → Prop
  | .register kind fn _ => ∀ q ∈ t.live, q.fn = fn → q.kind = kind
  | .unregister _ => True

def Honoured (e : Engine) (address : Trampoline → BitVec 64) (t : Tracked) : Prop :=
  ∀ q ∈ t.live, Dispatches e address t.state.host.mem q

/-- Where a slot is taken or given back, the other requests are not affected. -/
theorem Serves.branch_assign (hs : Serves e address t f) (hq : q ∈ t.live)
    (hother : q.fn ≠ t.state.callbacks slot) (fn target trampoline : BitVec 64) :
    branch e (assign e t.state slot fn target trampoline).host.mem q.ptr =
      branch e t.state.host.mem q.ptr := by
  obtain ⟨-, i, hi, hptr⟩ := hs.slots q hq
  have hne : i ≠ slot := by
    rintro rfl
    exact hother hi.symm
  rw [hptr, branch_assign_of_ne hs.consistent.ready hne]

/-- What a pointer leads to stays while its function is registered. -/
theorem Serves.branch_next (hs : Serves e address t f) (hq : q ∈ t.live)
    (hstays : ∀ fn, c = .unregister fn → q.fn ≠ fn) :
    branch e (t.next e address c).state.host.mem q.ptr = branch e t.state.host.mem q.ptr := by
  cases c with
  | register kind fn a =>
      rcases hs.register_cases kind fn a with
        ⟨slot, hslot, heq⟩ | ⟨hnew, ⟨-, heq⟩ | ⟨slot, hslot, heq⟩⟩
      · rw [heq]
      · rw [heq]
      · rw [heq]
        exact hs.branch_assign hq (fun hzero => (hs.slots q hq).1 (hzero.trans hslot)) ..
  | unregister fn =>
      rw [Tracked.next]
      rcases unregister_cases e t.state fn with ⟨-, heq⟩ | ⟨slot, hslot, heq⟩
      · rw [heq]
      · rw [heq]
        exact hs.branch_assign hq (fun hfn => hstays fn rfl (hfn.trans hslot)) ..

theorem Honoured.next_serving (hs : Serves e address t f) (hd : Honoured e address t)
    (hok : OneKind t c) (hc : ∀ kind fn a, c = .register kind fn a → fn ≠ 0) :
    Honoured e address (t.next e address c) := by
  have hkept : ∀ q ∈ t.live, (∀ fn, c = .unregister fn → q.fn ≠ fn) →
      Dispatches e address (t.next e address c).state.host.mem q :=
    fun q hq hstays => (hs.branch_next hq hstays).trans (hd q hq)
  cases c with
  | register kind fn a =>
      have hfn := hc kind fn a rfl
      rcases hs.register_cases kind fn a with
        ⟨slot, hslot, heq⟩ | ⟨hnew, ⟨-, heq⟩ | ⟨slot, hslot, heq⟩⟩
      · rw [heq]
        intro q hq
        rcases List.mem_cons.mp hq with rfl | hq
        · -- an earlier request got the same pointer
          obtain ⟨q, hq, hqfn⟩ := hs.known slot (hslot ▸ hfn)
          obtain ⟨hne, i, hi, hptr⟩ := hs.slots q hq
          have hislot : i = slot :=
            hs.consistent.distinct i slot (hi ▸ hne) (hi.trans hqfn)
          have hold := hd q hq
          rw [Dispatches, hptr, hqfn, hok q hq (hqfn.trans hslot), hislot, hslot] at hold
          exact hold
        · exact hd q hq
      · rw [heq]
        exact hd
      · rw [heq] at hkept ⊢
        intro q hq
        rcases List.mem_cons.mp hq with rfl | hq
        · exact branch_assign_self hs.consistent.ready slot fn fn (address kind)
        · exact hkept q hq fun _ heq' => by cases heq'
  | unregister fn =>
      intro q hq
      obtain ⟨hq, hqfn⟩ := List.mem_filter.mp hq
      refine hkept q hq fun fn' heq' => ?_
      obtain rfl := Call.unregister.inj heq'
      simpa using hqfn

theorem Honoured.next (hi : RunInv e address r t) (hd : Honoured e address t)
    (hok : OneKind t c) (hstep : CallStep e address t c t') : Honoured e address t' := by
  obtain ⟨hsound, rfl⟩ := hstep
  obtain ⟨hu, ⟨hb, hlive⟩ | ⟨f, hs⟩⟩ := hi
  · cases c with
    | register kind fn a =>
        rcases @next_of_blank e r address _ _ hu hb hlive hsound.2 kind fn with
          ⟨heq, -⟩ | ⟨⟨f, hserves⟩, -, heq⟩
        · rw [heq]
          exact fun q hq => absurd hq List.not_mem_nil
        · rw [heq]
          exact next_serving hserves (fun q hq => absurd hq List.not_mem_nil)
            (fun q hq => absurd hq List.not_mem_nil) hsound.ne_zero
    | unregister fn =>
        intro q hq
        rw [Tracked.next, hlive] at hq
        exact absurd hq List.not_mem_nil
  · exact next_serving hs hd hok hsound.ne_zero

/-- A box on which nothing has been registered. -/
structure Fresh (e : Engine) (r : Region) (s : State) : Prop where
  usable : Usable e r s
  blank : Blank s

theorem runInv_of_fresh (hf : Fresh e r s) : RunInv e address r ⟨s, []⟩ :=
  ⟨hf.usable, .inl ⟨hf.blank, rfl⟩⟩

theorem runInv_of_reaches {ok : Tracked → Call → Prop} (hf : Fresh e r s)
    (hrun : Reaches (CallStep e address) ok ⟨s, []⟩ t) : RunInv e address r t :=
  hrun.invariant (runInv_of_fresh hf) fun _ _ _ hi _ hstep => hi.next hstep

/-- Where no function is asked for in both ways at a time, every pointer dispatches the way
it was requested. -/
theorem pointers_dispatch_as_requested (hf : Fresh e r s)
    (hrun : Reaches (CallStep e address) OneKind ⟨s, []⟩ t) :
    ∀ q ∈ t.live, branch e t.state.host.mem q.ptr = some (q.fn, address q.kind) := by
  have hinv : RunInv e address r t ∧ Honoured e address t := by
    have hstart : RunInv e address r ⟨s, []⟩ ∧ Honoured e address ⟨s, []⟩ :=
      ⟨runInv_of_fresh hf, fun q hq => absurd hq List.not_mem_nil⟩
    exact @Reaches.invariant _ _ _ _ (fun t => RunInv e address r t ∧ Honoured e address t) _ _ hrun
      hstart fun _ _ _ hi hok hstep => ⟨hi.1.next hstep, hi.2.next hi.1 hok hstep⟩
  exact hinv.2

/-- A second request for a function gets the pointer of the first one, whatever its kind. -/
theorem Serves.second_request (hs : Serves e address t f) (hq : q ∈ t.live) (kind : Trampoline)
    (a : Answers) :
    t.next e address (.register kind q.fn a) = ⟨t.state, ⟨q.fn, kind, q.ptr⟩ :: t.live⟩ := by
  obtain ⟨hne, i, hi, hptr⟩ := hs.slots q hq
  rcases hs.register_cases kind q.fn a with ⟨slot, hslot, heq⟩ | ⟨hnew, -⟩
  · have hislot : i = slot := hs.consistent.distinct i slot (hi ▸ hne) (hi.trans hslot.symm)
    rw [heq, hptr, hislot]
  · exact absurd hi (hnew i)

/-- A box of an x64 engine on which nothing has been registered. -/
def freshState : State := ⟨emptyBox, reservedHost, ⟨0, 0, 0⟩, fun _ => 0⟩

def willingHost : Answers := ⟨some 3, true, some (gb 16), [], [], [], [], []⟩

def twoTrampolines : Trampoline → BitVec 64
  | .lfiCallback => 0x1000
  | .lfiCallbackStruct => 0x2000

theorem fresh_freshState : ∃ r, Fresh nopEngine r freshState := by
  obtain ⟨r, hinv⟩ := inv_new placed_nopEngine lfiBoxNew_nopEngine reserved_reservedHost
  exact ⟨r, ⟨⟨hinv.agree.region, hinv.agree.mapper⟩, by decide⟩, rfl, fun _ => rfl⟩

theorem sound_willingHost : willingHost.Sound nopEngine emptyBox := by
  intro start hstart
  obtain rfl : gb 16 = start := Option.some.inj hstart
  refine ⟨by decide, fun a hin hbox => ?_⟩
  have hlo : gb 16 / 4096 ≤ a / 4096 := hin.1
  have hhi : a < gb 8 := hbox.2
  simp only [gb] at hlo hhi
  omega

theorem initCb_freshState : (initCb nopEngine freshState willingHost).1 = true := by
  decide +kernel

/-- One registration of `fn`, on the box on which nothing has been registered. -/
def afterFirst (fn : BitVec 64) : Tracked :=
  Tracked.next nopEngine twoTrampolines ⟨freshState, []⟩ (.register .lfiCallback fn willingHost)

theorem callStep_afterFirst (hfn : fn ≠ 0) :
    CallStep nopEngine twoTrampolines ⟨freshState, []⟩ (.register .lfiCallback fn willingHost)
      (afterFirst fn) :=
  ⟨⟨hfn, sound_willingHost⟩, rfl⟩

/-- It succeeds. -/
theorem live_afterFirst (hfn : fn ≠ 0) :
    (∃ f, Serves nopEngine twoTrampolines (afterFirst fn) f) ∧
      ∃ ptr, (afterFirst fn).live = [⟨fn, .lfiCallback, ptr⟩] := by
  obtain ⟨r, hfresh⟩ := fresh_freshState
  obtain ⟨-, ⟨hok, -⟩ | ⟨hok, f, hserves⟩⟩ :=
    @initCb_idle nopEngine r twoTrampolines _ _ hfresh.usable hfresh.blank sound_willingHost
  · rw [initCb_freshState] at hok
    cases hok
  have hreg := @registerCb_init nopEngine twoTrampolines _ hfresh.blank.entries willingHost fn
    .lfiCallback fun _ => hserves.consistent.ready.entries
  rw [if_pos hok] at hreg
  have hnext : afterFirst fn = Tracked.next nopEngine twoTrampolines
      ⟨(initCb nopEngine freshState willingHost).2, []⟩ (.register .lfiCallback fn willingHost) := by
    simp only [afterFirst, Tracked.next, register_eq, hreg]
  have hblank : ∀ i, (initCb nopEngine freshState willingHost).2.callbacks i = 0 :=
    fun i => (congrFun (initCb_spec hfresh.usable.works hfresh.usable.pos
      sound_willingHost).callbacks i).trans (hfresh.blank.callbacks i)
  rw [hnext]
  refine ⟨⟨f, hserves.next (by rintro _ _ _ ⟨⟩; exact hfn)⟩, ?_⟩
  rcases hserves.register_cases .lfiCallback fn willingHost with
    ⟨slot, hslot, -⟩ | ⟨-, ⟨hfull, -⟩ | ⟨slot, -, heq⟩⟩
  · exact absurd (hslot.symm.trans (hblank slot)) hfn
  · exact absurd (hblank 0) (hfull 0)
  · rw [heq]
    exact ⟨_, rfl⟩

theorem oneKind_first (kind : Trampoline) (fn : BitVec 64) (a : Answers) :
    OneKind ⟨freshState, []⟩ (.register kind fn a) := fun _ hq _ => absurd hq List.not_mem_nil

theorem pointer_dispatches_after_first :
    ∃ q, (afterFirst 1).live = [q] ∧
      branch nopEngine (afterFirst 1).state.host.mem q.ptr = some (q.fn, twoTrampolines q.kind) := by
  obtain ⟨r, hfresh⟩ := fresh_freshState
  obtain ⟨-, ptr, hlive⟩ := @live_afterFirst 1 (by decide)
  have hrun := Reaches.tail (.refl _) (oneKind_first .lfiCallback 1 willingHost)
    (@callStep_afterFirst 1 (by decide))
  exact ⟨_, hlive,
    pointers_dispatch_as_requested hfresh hrun _ (hlive ▸ List.mem_singleton_self _)⟩

/-- The host is not asked again. -/
def silentHost : Answers := ⟨none, false, none, [], [], [], [], []⟩

theorem sound_silentHost (box : LFIBox) : silentHost.Sound nopEngine box := fun start hstart => by
  cases hstart

theorem honoured_afterFirst (hfresh : Fresh nopEngine r freshState) (hfn : fn ≠ 0) :
    Honoured nopEngine twoTrampolines (afterFirst fn) :=
  Honoured.next (runInv_of_fresh hfresh) (fun _ hq => absurd hq List.not_mem_nil)
    (oneKind_first .lfiCallback fn willingHost) (callStep_afterFirst hfn)

theorem Serves.struct_request {ptr : Nat} (hs : Serves nopEngine twoTrampolines t f)
    (hd : Honoured nopEngine twoTrampolines t) (hlive : t.live = [⟨1, .lfiCallback, ptr⟩]) :
    ∃ t', CallStep nopEngine twoTrampolines t (.register .lfiCallbackStruct 1 silentHost) t' ∧
      t'.live = [⟨1, .lfiCallbackStruct, ptr⟩, ⟨1, .lfiCallback, ptr⟩] ∧
      branch nopEngine t'.state.host.mem ptr = some (1, twoTrampolines .lfiCallback) := by
  have hmem : (⟨1, .lfiCallback, ptr⟩ : Request) ∈ t.live := hlive ▸ List.mem_singleton_self _
  have hsecond : t.next nopEngine twoTrampolines (.register .lfiCallbackStruct 1 silentHost) =
      ⟨t.state, ⟨1, .lfiCallbackStruct, ptr⟩ :: t.live⟩ :=
    hs.second_request hmem .lfiCallbackStruct silentHost
  refine ⟨_, ⟨⟨by decide, sound_silentHost _⟩, rfl⟩, ?_, ?_⟩
  · rw [hsecond, hlive]
  · have hfirst : Dispatches nopEngine twoTrampolines t.state.host.mem ⟨1, .lfiCallback, ptr⟩ :=
      hd _ hmem
    rw [Dispatches] at hfirst
    rw [hsecond, hfirst]

/-- The same function is registered once for each kind. Both requests get one pointer, and it
leads to `lfi_callback`. -/
theorem struct_pointer_leads_to_lfiCallback :
    ∃ t₁ t₂, CallStep nopEngine twoTrampolines ⟨freshState, []⟩
        (.register .lfiCallback 1 willingHost) t₁ ∧
      CallStep nopEngine twoTrampolines t₁ (.register .lfiCallbackStruct 1 silentHost) t₂ ∧
      ∃ ptr, t₂.live = [⟨1, .lfiCallbackStruct, ptr⟩, ⟨1, .lfiCallback, ptr⟩] ∧
        branch nopEngine t₂.state.host.mem ptr = some (1, twoTrampolines .lfiCallback) ∧
        twoTrampolines .lfiCallback ≠ twoTrampolines .lfiCallbackStruct := by
  obtain ⟨r, hfresh⟩ := fresh_freshState
  have hne : (1 : BitVec 64) ≠ 0 := by decide
  obtain ⟨⟨f, hserves⟩, ptr, hlive⟩ := live_afterFirst hne
  obtain ⟨t₂, hstep, hlive₂, hbranch⟩ :=
    hserves.struct_request (honoured_afterFirst hfresh hne) hlive
  exact ⟨afterFirst 1, t₂, callStep_afterFirst hne, hstep, ptr, hlive₂, hbranch, by decide⟩

/-! The table. -/

def Registered (t : Tracked) (fn : BitVec 64) : Prop := ∃ q ∈ t.live, q.fn = fn

/-- Where `init_cb` of arm64 has to give its pages back, the host lets it. -/
def UndoWorks (e : Engine) (a : Answers) : Prop :=
  e.target = arm64 → (a.undo.headD .ok).isOk = true

/-- A failed registration that finds no entries leaves the box as it was, and ready for
another one. -/
structure InitUndone (e : Engine) (r : Region) (s s' : State) : Prop where
  mquery : ∀ addr, lfiBoxMquery s'.box addr = lfiBoxMquery s.box addr
  fresh : Fresh e r s'

/-- The slots and the registered functions correspond, the entries lead where the slots say,
and a registration fails only for want of a slot or of entries. -/
structure TableOk (e : Engine) (address : Trampoline → BitVec 64) (r : Region) (t : Tracked) :
    Prop where
  slots : ∀ fn, fn ≠ 0 → (Registered t fn ↔ ∃! slot, t.state.callbacks slot = fn)
  occupied : ∀ slot, t.state.callbacks slot ≠ 0 → Registered t (t.state.callbacks slot)
  live : ∀ q ∈ t.live, ∃ kind, branch e t.state.host.mem q.ptr = some (q.fn, address kind)
  stays : ∀ q ∈ t.live, ∀ c t', CallStep e address t c t' →
    (∀ fn, c = .unregister fn → q.fn ≠ fn) →
      branch e t'.state.host.mem q.ptr = branch e t.state.host.mem q.ptr
  free : t.state.cbinfo.entries ≠ 0 → ∀ slot, t.state.callbacks slot = 0 →
    branch e t.state.host.mem (entryAddr e t.state slot) = some (0, 0)
  fails_iff : ∀ kind fn a, fn ≠ 0 → a.Sound e t.state.box →
    ((register e address t.state a fn kind).1 = none ↔
      ¬Registered t fn ∧ ((∀ slot, t.state.callbacks slot ≠ 0) ∨
        t.state.cbinfo.entries = 0 ∧ (initCb e t.state a).1 = false))
  undone : t.state.cbinfo.entries = 0 → ∀ kind fn a, a.Sound e t.state.box → UndoWorks e a →
    (initCb e t.state a).1 = false →
      InitUndone e r t.state (register e address t.state a fn kind).2

theorem Serves.registered_iff (hs : Serves e address t f) (hfn : fn ≠ 0) :
    Registered t fn ↔ ∃ slot, t.state.callbacks slot = fn := by
  constructor
  · rintro ⟨q, hq, rfl⟩
    obtain ⟨-, slot, hslot, -⟩ := hs.slots q hq
    exact ⟨slot, hslot⟩
  · rintro ⟨slot, rfl⟩
    exact hs.known slot hfn

theorem Serves.tableOk (hs : Serves e address t f) : TableOk e address r t := by
  refine ⟨fun fn hfn => ?_, fun slot hslot => hs.known slot hslot, fun q hq => ?_,
    fun q hq c t' hstep hstays => ?_, fun _ slot hslot => ?_, fun kind fn a hfn _ => ?_,
    fun h0 => ?_⟩
  · rw [hs.registered_iff hfn]
    constructor
    · rintro ⟨slot, hslot⟩
      refine ⟨slot, hslot, fun i hi => ?_⟩
      exact hs.consistent.distinct i slot (hi ▸ hfn) (hi.trans hslot.symm)
    · exact fun hunique => hunique.exists
  · obtain ⟨hne, slot, hslot, hptr⟩ := hs.slots q hq
    obtain ⟨kind, hkind⟩ := hs.consistent.taken slot (hslot ▸ hne)
    exact ⟨kind, by rw [hptr, hs.consistent.ready.branch, hkind, hslot]⟩
  · rw [hstep.2]
    exact hs.branch_next hq hstays
  · rw [hs.consistent.ready.branch, hs.consistent.free slot hslot]
  · rw [register_eq, hs.registered_iff hfn, not_exists]
    have hentries := hs.consistent.ready.entries
    rcases @registerCb_cases e address _ hentries a fn kind with
      ⟨slot, hslot, heq⟩ | ⟨hnew, ⟨hfull, heq⟩ | ⟨slot, hslot, heq⟩⟩
    · rw [heq]
      exact iff_of_false (by simp) fun h => h.1 slot hslot
    · rw [heq]
      exact iff_of_true rfl ⟨hnew, .inl hfull⟩
    · rw [heq]
      exact iff_of_false (by simp) fun h => h.2.elim (fun hfull => hfull slot hslot)
        fun h0 => hentries h0.1
  · exact absurd h0 hs.consistent.ready.entries

theorem tableOk_of_blank (hu : Usable e r t.state) (hb : Blank t.state) (hlive : t.live = []) :
    TableOk e address r t := by
  have hnone : ∀ fn, ¬Registered t fn := by
    rintro fn ⟨q, hq, -⟩
    rw [hlive] at hq
    exact absurd hq List.not_mem_nil
  refine ⟨fun fn hfn => ?_, fun slot hslot => absurd (hb.callbacks slot) hslot,
    fun q hq => absurd hq (hlive ▸ List.not_mem_nil),
    fun q hq => absurd hq (hlive ▸ List.not_mem_nil), fun hne => absurd hb.entries hne,
    fun kind fn a hfn ha => ?_, fun _ kind fn a ha hundo hfail => ?_⟩
  · refine iff_of_false (hnone fn) fun ⟨slot, hslot, _⟩ => ?_
    exact hfn (hslot.symm.trans (hb.callbacks slot))
  · have hempty : ¬∀ slot, t.state.callbacks slot ≠ 0 := fun hfull => hfull 0 (hb.callbacks 0)
    simp only [hnone fn, not_false_eq_true, hempty, false_or, hb.entries, true_and]
    rw [register_eq]
    obtain ⟨-, ⟨hfail, -⟩ | ⟨hok, f, hs⟩⟩ := @initCb_idle e r address _ _ hu hb ha
    · rw [registerCb_init hb.entries a fn kind (by simp [hfail]), hfail]
      exact iff_of_true rfl rfl
    · have hfree : ∀ slot, (initCb e t.state a).2.callbacks slot = 0 := by
        intro slot
        by_contra hne
        obtain ⟨q, hq, -⟩ := hs.known slot hne
        exact absurd hq List.not_mem_nil
      rw [registerCb_init hb.entries a fn kind fun _ => hs.consistent.ready.entries, hok]
      refine iff_of_false ?_ (by simp)
      rcases @registerCb_cases e address _ hs.consistent.ready.entries a fn kind with
        ⟨slot, -, heq⟩ | ⟨-, ⟨hfull, -⟩ | ⟨slot, -, heq⟩⟩
      · rw [if_pos rfl, heq]
        simp
      · exact absurd (hfree 0) (hfull 0)
      · rw [if_pos rfl, heq]
        simp
  · obtain ⟨husable, ⟨-, hblank⟩ | ⟨hok, -⟩⟩ := @initCb_idle e r address _ _ hu hb ha
    · rw [register_eq, registerCb_init hb.entries a fn kind (by simp [hfail]), hfail]
      refine ⟨fun addr => ?_, husable, hblank⟩
      have hinit := initCb_spec hu.works hu.pos ha
      have htable := hinit.table hfail fun harm => by
        rw [outcome, ← next_eq]
        exact hundo harm
      simp only [Bool.false_eq_true, if_false]
      rw [husable.works.region.mquery_eq husable.works.mapper,
        hu.works.region.mquery_eq hu.works.mapper, htable]
    · rw [hok] at hfail
      cases hfail

/-- The table is in order whatever is registered and removed, except that a box may be left
with pages of a failed `init_cb` where the host does not take them back. -/
theorem slot_table_consistent (hf : Fresh e r s)
    (hrun : Reaches (CallStep e address) anyStep ⟨s, []⟩ t) : TableOk e address r t := by
  obtain ⟨hu, ⟨hb, hlive⟩ | ⟨f, hs⟩⟩ := runInv_of_reaches hf hrun
  · exact tableOk_of_blank hu hb hlive
  · exact hs.tableOk

theorem slot_table_consistent_after_first :
    ∃ r, TableOk nopEngine twoTrampolines r (afterFirst 1) := by
  obtain ⟨r, hfresh⟩ := fresh_freshState
  have hne : (1 : BitVec 64) ≠ 0 := by decide
  exact ⟨r, slot_table_consistent hfresh ((Reaches.refl _).tail trivial (callStep_afterFirst hne))⟩

/-- An arm64 engine. -/
def armEngine : Engine := { nopEngine with target := arm64 }

/-- A box of that engine with nothing mapped or registered. -/
def armState : State where
  box := ⟨gb 4, gb 4, gb 4 + kb 192, gb 8 - kb 192,
    ⟨0x100030, 0xfffa0, 12, false, 0, [], false⟩, 0⟩
  host := reservedHost
  cbinfo := ⟨0, 0, 0⟩
  callbacks := fun _ => 0

theorem lfiBoxNew_armEngine : lfiBoxNew armEngine (gb 4) 0 = some armState.box := rfl

/-- The host refuses to make the code executable, and then to take the pages back. -/
def stubbornHost : Answers := ⟨some 3, true, some (gb 16), [], [.fail 0], [], [.fail 0], []⟩

theorem failed_init_leaves_pages :
    let u := lfiBoxRegisterCb armEngine twoTrampolines armState stubbornHost 1
    u.1 = none ∧ lfiBoxMquery armState.box armState.box.min = none ∧
      (lfiBoxMquery u.2.box armState.box.min).isSome := by
  decide +kernel

end LfiRuntime.Callbacks
