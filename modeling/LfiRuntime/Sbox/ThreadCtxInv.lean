import LfiRuntime.Sbox.ThreadCtx

/-!
The invariant of the runs in which `~ThreadCleanup` has the last word on a
thread and never meets a destroyed sandbox: what each thread, each sandbox and
each pair of them satisfy.
-/

namespace LfiRuntime.ThreadCtx

open LfiRuntime.Runs

theorem update_some_cases {α : Type} {f : Nat → Option α} {i j : Nat} {x y : α}
    (h : Function.update f i (some x) j = some y) : (j = i ∧ y = x) ∨ (j ≠ i ∧ f j = some y) := by
  rcases eq_or_ne j i with rfl | hne
  · rw [Function.update_self] at h
    exact .inl ⟨rfl, (Option.some.inj h).symm⟩
  · rw [Function.update_of_ne hne] at h
    exact .inr ⟨hne, h⟩

theorem of_update_none {α : Type} {f : Nat → Option α} {i j : Nat} {y : α}
    (h : Function.update f i none j = some y) : j ≠ i ∧ f j = some y := by
  rcases eq_or_ne j i with rfl | hne
  · rw [Function.update_self] at h
    cases h
  · rw [Function.update_of_ne hne] at h
    exact ⟨hne, h⟩

def Phase.exiting : Phase → Prop
  | .cleaning | .cleaned => True
  | _ => False

/-- The condition on the steps. After `~ThreadCleanup` a thread calls member
functions only of sandboxes whose main thread has its id, and a thread destroys
a sandbox only when it has no attachment to it itself. -/
def Meets (s : State) : Label → Prop
  | .access t a _ => ∀ T S, s.threads t = some T → s.sandboxes a = some S →
      T.phase = .cleaned → S.mainThreadTid = T.tid
  | .destroy t a => ∀ T, s.threads t = some T → ∀ x ∈ T.attachments, x.sandbox ≠ a
  | _ => True

def Ok (s : State) (l : Label) : Prop := OthersDetached s l ∧ Meets s l

structure ThreadOk (s : State) (T : Thread) : Prop where
  lastId : T.lastSandboxId < s.sandboxIdCounter
  attachments : ∀ x ∈ T.attachments, x.id = T.tid ∧ ∃ S, s.sandboxes x.sandbox = some S
  cleaned : T.phase = .cleaned → T.attachments = []
  procs : (T.attachedCtxs.map Prod.fst).Nodup
  ctxs : (T.attachedCtxs.map Prod.snd).Nodup
  live : ∀ x ∈ T.attachedCtxs, s.ctxs x.2 = some x.1

structure SandboxOk (s : State) (S : Sandbox) : Prop where
  id_pos : 0 < S.id
  id_lt : S.id < s.sandboxIdCounter
  mainCtx : s.ctxs S.mainCtx = some S.id
  node_lt : ∀ id slot, S.threadCtxs id = some slot → slot.node < s.nextNode
  node_inj : ∀ id slot id' slot', S.threadCtxs id = some slot → S.threadCtxs id' = some slot' →
    slot.node = slot'.node → id = id'
  main : ∀ slot, S.threadCtxs S.mainThreadTid = some slot → slot.ctx = some S.mainCtx
  owner : ∀ id slot, S.threadCtxs id = some slot →
    id = S.mainThreadTid ∨ ∃ t T, s.threads t = some T ∧ T.tid = id

/-- A thread and a sandbox, at `a`. The last field is about a thread that has
released its context and not yet erased its slot. -/
structure PairOk (s : State) (a : Nat) (S : Sandbox) (T : Thread) : Prop where
  cache : T.lastSandboxId = S.id → (T.phase.exiting → S.mainThreadTid = T.tid) →
    ∃ slot, S.threadCtxs T.tid = some slot ∧ T.lastCtxp = some slot.node
  main : S.mainThreadTid = T.tid →
    (∀ slot, S.threadCtxs T.tid = some slot → slot.ctx = some S.mainCtx) ∧
      (∀ x ∈ T.attachments, x.sandbox ≠ a) ∧ ∀ c, (S.id, c) ∉ T.attachedCtxs
  attachment : S.mainThreadTid ≠ T.tid → ∀ slot, S.threadCtxs T.tid = some slot →
    ⟨a, T.tid⟩ ∈ T.attachments
  attached : S.mainThreadTid ≠ T.tid → T.phase ≠ .detaching a →
    ∀ slot, S.threadCtxs T.tid = some slot → ∀ c, slot.ctx = some c →
      (S.id, c) ∈ T.attachedCtxs
  slot : ¬T.phase.exiting → ∀ c, (S.id, c) ∈ T.attachedCtxs →
    ∃ slot, S.threadCtxs T.tid = some slot ∧ slot.ctx = some c
  freed : S.mainThreadTid ≠ T.tid → T.phase = .detaching a →
    (∀ c, (S.id, c) ∉ T.attachedCtxs) ∧ ∀ slot, S.threadCtxs T.tid = some slot →
      ∀ c, slot.ctx = some c → s.ctxs c = none ∧ c < s.nextCtx

structure Inv (s : State) : Prop where
  counter_pos : 0 < s.sandboxIdCounter
  tids : ∀ t T t' T', s.threads t = some T → s.threads t' = some T' → T.tid = T'.tid → t = t'
  ids : ∀ a S a' S', s.sandboxes a = some S → s.sandboxes a' = some S' → S.id = S'.id → a = a'
  ctxs_lt : ∀ c p, s.ctxs c = some p → c < s.nextCtx ∧ p < s.sandboxIdCounter
  thread : ∀ t T, s.threads t = some T → ThreadOk s T
  sandbox : ∀ a S, s.sandboxes a = some S → SandboxOk s S
  pair : ∀ t T a S, s.threads t = some T → s.sandboxes a = some S → PairOk s a S T
  attached_excl : ∀ t T t' T' p p' c, s.threads t = some T → s.threads t' = some T' →
    (p, c) ∈ T.attachedCtxs → (p', c) ∈ T'.attachedCtxs → t = t'
  attached_ne_main : ∀ t T a S p c, s.threads t = some T → s.sandboxes a = some S →
    (p, c) ∈ T.attachedCtxs → S.mainCtx ≠ c

theorem inv_init : Inv State.init := by
  constructor <;> simp [State.init]

/-- `S'` is `S` after a step that concerns the slot of `tid` only. -/
structure Sandbox.Like (S' S : Sandbox) (tid : Nat) : Prop where
  id : S'.id = S.id
  mainThreadTid : S'.mainThreadTid = S.mainThreadTid
  mainCtx : S'.mainCtx = S.mainCtx
  threadCtxs : ∀ id, id ≠ tid → S'.threadCtxs id = S.threadCtxs id

@[simp] theorem Sandbox.Like.refl (S : Sandbox) (tid : Nat) : S.Like S tid :=
  ⟨rfl, rfl, rfl, fun _ _ => rfl⟩

@[simp] theorem Sandbox.setSlot_like (S : Sandbox) (tid : Nat) (slot : Option Slot) :
    (S.setSlot tid slot).Like S tid :=
  ⟨rfl, rfl, rfl, fun _ h => Function.update_of_ne h _ _⟩

@[simp] theorem Sandbox.setSlot_self (S : Sandbox) (tid : Nat) (slot : Option Slot) :
    (S.setSlot tid slot).threadCtxs tid = slot := Function.update_self ..

theorem Sandbox.setSlot_of_eq {S : Sandbox} {tid : Nat} {slot : Option Slot}
    (h : S.threadCtxs tid = slot) : S.setSlot tid slot = S := by
  rw [Sandbox.setSlot, ← h, Function.update_eq_self]

/-- From `s` to `s'` the thread `t`, which was `T`, became `T'`, and of what the
other threads rely on nothing changed. -/
structure StepOf (s s' : State) (t : Nat) (T T' : Thread) : Prop where
  thread : s.threads t = some T
  threads : s'.threads = Function.update s.threads t (some T')
  tid : T'.tid = T.tid
  sandboxes : ∀ a S', s'.sandboxes a = some S' →
    ∃ S, s.sandboxes a = some S ∧ S'.Like S T.tid
  kept : ∀ a S, s.sandboxes a = some S → ∃ S', s'.sandboxes a = some S'
  counter : s'.sandboxIdCounter = s.sandboxIdCounter
  nextNode : s.nextNode ≤ s'.nextNode
  nextCtx : s.nextCtx ≤ s'.nextCtx
  ctxs_lt : ∀ c p, s'.ctxs c = some p → c < s'.nextCtx ∧ p < s'.sandboxIdCounter
  ctxs : ∀ c < s.nextCtx, (∀ p, (p, c) ∉ T.attachedCtxs) → s'.ctxs c = s.ctxs c
  attachedCtxs : ∀ p c, (p, c) ∈ T'.attachedCtxs → (p, c) ∈ T.attachedCtxs ∨ s.nextCtx ≤ c

variable {s s' : State} {t a : Nat} {S S' : Sandbox} {T T' : Thread}

theorem PairOk.congr (h : PairOk s a S T) {id : Nat} (hlike : S'.Like S id) (hid : T.tid ≠ id)
    (hfree : ∀ c < s.nextCtx, s.ctxs c = none → s'.ctxs c = none)
    (hnext : s.nextCtx ≤ s'.nextCtx) : PairOk s' a S' T := by
  have hslot := hlike.threadCtxs _ hid
  refine ⟨?_, ?_, ?_, ?_, ?_, ?_⟩
  · rw [hlike.id, hlike.mainThreadTid, hslot]
    exact h.cache
  · rw [hlike.id, hlike.mainThreadTid, hlike.mainCtx, hslot]
    exact h.main
  · rw [hlike.mainThreadTid, hslot]
    exact h.attachment
  · rw [hlike.id, hlike.mainThreadTid, hslot]
    exact h.attached
  · rw [hlike.id, hslot]
    exact h.slot
  · rw [hlike.id, hlike.mainThreadTid, hslot]
    intro hmain hphase
    obtain ⟨hnone, hctx⟩ := h.freed hmain hphase
    refine ⟨hnone, fun slot hs c hc => ?_⟩
    obtain ⟨hfreed, hlt⟩ := hctx slot hs c hc
    exact ⟨hfree c hlt hfreed, Nat.lt_of_lt_of_le hlt hnext⟩

namespace StepOf

theorem threads_self (h : StepOf s s' t T T') : s'.threads t = some T' := by
  rw [h.threads, Function.update_self]

theorem threads_of_ne (h : StepOf s s' t T T') {t' : Nat} (hne : t' ≠ t) :
    s'.threads t' = s.threads t' := by
  rw [h.threads, Function.update_of_ne hne]

/-- A thread after the step is `T'`, or another one that was there before. -/
theorem cases (h : StepOf s s' t T T') {t' : Nat} {U : Thread} (hU : s'.threads t' = some U) :
    (t' = t ∧ U = T') ∨ (t' ≠ t ∧ s.threads t' = some U) := by
  rw [h.threads] at hU
  exact update_some_cases hU

/-- A context that another thread has is not one of `T`. -/
theorem ctxs_other (h : StepOf s s' t T T') (hinv : Inv s) {t' : Nat} {U : Thread}
    (hne : t' ≠ t) (hU : s.threads t' = some U) {p c : Nat} (hc : (p, c) ∈ U.attachedCtxs) :
    s'.ctxs c = some p := by
  have hlive := (hinv.thread t' U hU).live _ hc
  rw [h.ctxs c (hinv.ctxs_lt c p hlive).1, hlive]
  intro p' hp'
  exact hne (hinv.attached_excl t' U t T p p' c hU h.thread hc hp')

theorem ctxs_main (h : StepOf s s' t T T') (hinv : Inv s) (ha : s.sandboxes a = some S) :
    s'.ctxs S.mainCtx = some S.id := by
  have hlive := (hinv.sandbox a S ha).mainCtx
  rw [h.ctxs _ (hinv.ctxs_lt _ _ hlive).1, hlive]
  intro p hp
  exact hinv.attached_ne_main t T a S p _ h.thread ha hp rfl

theorem ctxs_none (h : StepOf s s' t T T') (hinv : Inv s) {c : Nat} (hlt : c < s.nextCtx)
    (hc : s.ctxs c = none) : s'.ctxs c = none := by
  rw [h.ctxs c hlt, hc]
  intro p hp
  have hlive := (hinv.thread t T h.thread).live _ hp
  rw [hc] at hlive
  cases hlive

/-- The rule for a step of one thread: what it leaves to show is about that
thread, the slots, and the thread with each sandbox. -/
theorem inv (h : StepOf s s' t T T') (hinv : Inv s) (hthread : ThreadOk s' T')
    (hnode_lt : ∀ a S', s'.sandboxes a = some S' → ∀ id slot, S'.threadCtxs id = some slot →
      slot.node < s'.nextNode)
    (hnode_inj : ∀ a S', s'.sandboxes a = some S' → ∀ id slot id' slot',
      S'.threadCtxs id = some slot → S'.threadCtxs id' = some slot' →
        slot.node = slot'.node → id = id')
    (hpair : ∀ a S', s'.sandboxes a = some S' → PairOk s' a S' T') : Inv s' where
  counter_pos := h.counter ▸ hinv.counter_pos
  tids := by
    intro t₁ T₁ t₂ T₂ h₁ h₂ htid
    rcases h.cases h₁ with ⟨rfl, rfl⟩ | ⟨hne₁, h₁⟩ <;>
      rcases h.cases h₂ with ⟨rfl, rfl⟩ | ⟨hne₂, h₂⟩
    · rfl
    · exact hinv.tids _ _ _ _ h.thread h₂ (h.tid.symm.trans htid)
    · exact hinv.tids _ _ _ _ h₁ h.thread (htid.trans h.tid)
    · exact hinv.tids _ _ _ _ h₁ h₂ htid
  ids := by
    intro a₁ S₁ a₂ S₂ h₁ h₂ hid
    obtain ⟨R₁, hR₁, hlike₁⟩ := h.sandboxes _ _ h₁
    obtain ⟨R₂, hR₂, hlike₂⟩ := h.sandboxes _ _ h₂
    rw [hlike₁.id, hlike₂.id] at hid
    exact hinv.ids _ _ _ _ hR₁ hR₂ hid
  ctxs_lt := h.ctxs_lt
  thread := by
    intro t' U hU
    rcases h.cases hU with ⟨rfl, rfl⟩ | ⟨hne, hU⟩
    · exact hthread
    · have hok := hinv.thread t' U hU
      refine ⟨?_, ?_, hok.cleaned, hok.procs, hok.ctxs, ?_⟩
      · rw [h.counter]
        exact hok.lastId
      · intro x hx
        obtain ⟨hid, R, hR⟩ := hok.attachments x hx
        exact ⟨hid, h.kept _ _ hR⟩
      · intro x hx
        exact h.ctxs_other hinv hne hU hx
  sandbox := by
    intro a S' ha'
    obtain ⟨S, ha, hlike⟩ := h.sandboxes _ _ ha'
    have hok := hinv.sandbox a S ha
    refine ⟨hlike.id ▸ hok.id_pos, ?_, ?_, hnode_lt a S' ha', hnode_inj a S' ha', ?_, ?_⟩
    · rw [hlike.id, h.counter]
      exact hok.id_lt
    · rw [hlike.mainCtx, hlike.id]
      exact h.ctxs_main hinv ha
    · rcases eq_or_ne S'.mainThreadTid T'.tid with hmain | hmain
      · rw [hmain]
        exact ((hpair a S' ha').main hmain).1
      · rw [h.tid, hlike.mainThreadTid] at hmain
        rw [hlike.mainThreadTid, hlike.mainCtx, hlike.threadCtxs _ hmain]
        exact hok.main
    · intro id slot hslot
      rw [hlike.mainThreadTid]
      rcases eq_or_ne id T.tid with rfl | hid
      · exact .inr ⟨t, T', h.threads_self, h.tid⟩
      · rw [hlike.threadCtxs id hid] at hslot
        rcases hok.owner id slot hslot with hmain | ⟨t', U, hU, htid⟩
        · exact .inl hmain
        · refine .inr ⟨t', U, ?_, htid⟩
          rw [h.threads_of_ne, hU]
          rintro rfl
          rw [h.thread] at hU
          cases hU
          exact hid htid.symm
  pair := by
    intro t' U a S' hU ha'
    rcases h.cases hU with ⟨rfl, rfl⟩ | ⟨hne, hU⟩
    · exact hpair a S' ha'
    · obtain ⟨S, ha, hlike⟩ := h.sandboxes _ _ ha'
      refine (hinv.pair t' U a S hU ha).congr hlike ?_
        (fun c hlt hc => h.ctxs_none hinv hlt hc) h.nextCtx
      intro htid
      exact hne (hinv.tids _ _ _ _ hU h.thread htid)
  attached_excl := by
    intro t₁ T₁ t₂ T₂ p₁ p₂ c h₁ h₂ hc₁ hc₂
    -- a context of another thread is below `nextCtx`, so it is not a new one of `T'`
    have hother : ∀ t' U p p', t' ≠ t → s.threads t' = some U → (p, c) ∈ U.attachedCtxs →
        (p', c) ∈ T'.attachedCtxs → False := by
      intro t' U p p' hne hU hc hc'
      rcases h.attachedCtxs p' c hc' with hold | hnew
      · exact hne (hinv.attached_excl _ _ _ _ _ _ _ hU h.thread hc hold)
      · have hlive := (hinv.thread t' U hU).live _ hc
        exact absurd (hinv.ctxs_lt c p hlive).1 (by omega)
    rcases h.cases h₁ with ⟨rfl, rfl⟩ | ⟨hne₁, h₁⟩ <;>
      rcases h.cases h₂ with ⟨rfl, rfl⟩ | ⟨hne₂, h₂⟩
    · rfl
    · exact (hother _ _ _ _ hne₂ h₂ hc₂ hc₁).elim
    · exact (hother _ _ _ _ hne₁ h₁ hc₁ hc₂).elim
    · exact hinv.attached_excl _ _ _ _ _ _ _ h₁ h₂ hc₁ hc₂
  attached_ne_main := by
    intro t' U a S' p c hU ha' hc
    obtain ⟨S, ha, hlike⟩ := h.sandboxes _ _ ha'
    rw [hlike.mainCtx]
    rcases h.cases hU with ⟨rfl, rfl⟩ | ⟨hne, hU⟩
    · rcases h.attachedCtxs p c hc with hold | hnew
      · exact hinv.attached_ne_main _ _ _ _ _ _ h.thread ha hold
      · have hlive := (hinv.sandbox a S ha).mainCtx
        have := (hinv.ctxs_lt _ _ hlive).1
        omega
    · exact hinv.attached_ne_main _ _ _ _ _ _ hU ha hc

end StepOf

/-- A sandbox that the step does not concern, at another address. -/
theorem PairOk.other (h : PairOk s a S T) (htid : T'.tid = T.tid)
    (hlast : T'.lastSandboxId = S.id → T.lastSandboxId = S.id ∧ T'.lastCtxp = T.lastCtxp)
    (hexit : T.phase.exiting → T'.phase.exiting) (hphase : T.phase ≠ .detaching a)
    (hphase' : T'.phase ≠ .detaching a)
    (hkept : ⟨a, T.tid⟩ ∈ T.attachments → ⟨a, T.tid⟩ ∈ T'.attachments)
    (hold : ∀ x ∈ T'.attachments, x.sandbox = a → x ∈ T.attachments)
    (hctx : ∀ c, (S.id, c) ∈ T'.attachedCtxs ↔ (S.id, c) ∈ T.attachedCtxs) :
    PairOk s' a S T' := by
  refine ⟨?_, ?_, ?_, ?_, ?_, fun _ hd => absurd hd hphase'⟩
  · rw [htid]
    intro hid hmain
    obtain ⟨hid, hptr⟩ := hlast hid
    rw [hptr]
    exact h.cache hid (fun he => hmain (hexit he))
  · rw [htid]
    intro hmain
    obtain ⟨hslot, hatt, hctxs⟩ := h.main hmain
    refine ⟨hslot, fun x hx hxa => hatt x (hold x hx hxa) hxa, fun c hc => ?_⟩
    exact hctxs c ((hctx c).mp hc)
  · rw [htid]
    intro hmain slot hslot
    exact hkept (h.attachment hmain slot hslot)
  · rw [htid]
    intro hmain _ slot hslot c hc
    exact (hctx c).mpr (h.attached hmain hphase slot hslot c hc)
  · rw [htid]
    intro he c hc
    exact h.slot (fun he' => he (hexit he')) c ((hctx c).mp hc)

/-- What `get_thread_ctx` did: it found `slot` or made it. -/
structure Gets (s : State) (a : Nat) (S : Sandbox) (T : Thread) (slot : Slot) (T' : Thread) :
    Prop where
  found : S.threadCtxs T.tid = some slot ∨
    S.threadCtxs T.tid = none ∧ slot = S.newSlot s.nextNode T.tid
  tid : T'.tid = T.tid
  lastSandboxId : T'.lastSandboxId = S.id
  lastCtxp : T'.lastCtxp = some slot.node
  attachments : T'.attachments =
    if S.threadCtxs T.tid = none ∧ S.mainThreadTid ≠ T.tid then T.attachments ++ [⟨a, T.tid⟩]
    else T.attachments
  attachedCtxs : T'.attachedCtxs = T.attachedCtxs
  phase : T'.phase = T.phase

theorem lookupThreadCtx_spec (s : State) (a : Nat) (S : Sandbox) (T : Thread) :
    ∃ slot T', lookupThreadCtx s.nextNode a S T =
      ⟨some slot.node, S.setSlot T.tid (some slot), T'⟩ ∧ Gets s a S T slot T' := by
  rcases hslot : S.threadCtxs T.tid with _ | slot
  · refine ⟨S.newSlot s.nextNode T.tid, (T.attach a S).remember S (S.newSlot s.nextNode T.tid),
      ?_, ?_⟩
    · simp only [lookupThreadCtx, hslot]
    · constructor <;> rcases eq_or_ne S.mainThreadTid T.tid with hmain | hmain <;>
        simp [Thread.attach, Thread.remember, hslot, hmain]
  · refine ⟨slot, T.remember S slot, ?_, ?_⟩
    · simp only [lookupThreadCtx, hslot, Sandbox.setSlot_of_eq hslot]
    · constructor <;> simp [Thread.remember, hslot]

/-- The fast path finds what the slow path would. -/
theorem getThreadCtx_spec (h : PairOk s a S T) (hcall : T.phase.mayCall)
    (hclean : T.phase = .cleaned → S.mainThreadTid = T.tid) :
    ∃ slot T', getThreadCtx s.nextNode a S T =
      ⟨some slot.node, S.setSlot T.tid (some slot), T'⟩ ∧ Gets s a S T slot T' := by
  rcases eq_or_ne T.lastSandboxId S.id with hid | hid
  · have hmain : T.phase.exiting → S.mainThreadTid = T.tid := by
      intro he
      apply hclean
      revert hcall he
      cases T.phase <;> simp [Phase.mayCall, Phase.exiting]
    obtain ⟨slot, hslot, hptr⟩ := h.cache hid hmain
    refine ⟨slot, T, ?_, ?_⟩
    · rw [getThreadCtx, if_pos hid, Sandbox.setSlot_of_eq hslot, hptr]
    · exact ⟨.inl hslot, rfl, hid, hptr, by simp [hslot], rfl, rfl⟩
  · rw [getThreadCtx, if_neg hid]
    exact lookupThreadCtx_spec s a S T

/-- A step of the thread `t` on its slot of the sandbox at `a`: on the cache and
the attachments of the thread with the other sandboxes nothing changes. -/
structure SlotStep (s s' : State) (t a : Nat) (S : Sandbox) (T T' : Thread) (x : Option Slot) :
    Prop where
  thread : s.threads t = some T
  sandbox : s.sandboxes a = some S
  threads : s'.threads = Function.update s.threads t (some T')
  sandboxes : s'.sandboxes = Function.update s.sandboxes a (some (S.setSlot T.tid x))
  tid : T'.tid = T.tid
  counter : s'.sandboxIdCounter = s.sandboxIdCounter
  nextNode : s.nextNode ≤ s'.nextNode
  nextCtx : s.nextCtx ≤ s'.nextCtx
  ctxs_lt : ∀ c p, s'.ctxs c = some p → c < s'.nextCtx ∧ p < s'.sandboxIdCounter
  ctxs : ∀ c < s.nextCtx, s'.ctxs c = s.ctxs c
  attachedCtxs : ∀ p c, (p, c) ∈ T'.attachedCtxs →
    (p, c) ∈ T.attachedCtxs ∨ p = S.id ∧ s.nextCtx ≤ c
  attached_sub : ∀ x ∈ T.attachedCtxs, x ∈ T'.attachedCtxs
  node : ∀ slot, x = some slot → (∃ old, S.threadCtxs T.tid = some old ∧ old.node = slot.node) ∨
    slot.node = s.nextNode ∧ s.nextNode < s'.nextNode
  last : T'.lastSandboxId = T.lastSandboxId ∧ T'.lastCtxp = T.lastCtxp ∨
    T'.lastSandboxId = S.id ∨ T'.lastSandboxId = 0
  exiting : T.phase.exiting → T'.phase.exiting
  phase : ∀ a', a' ≠ a → T.phase ≠ .detaching a' ∧ T'.phase ≠ .detaching a'
  kept : ∀ a', a' ≠ a → ⟨a', T.tid⟩ ∈ T.attachments → ⟨a', T.tid⟩ ∈ T'.attachments
  old : ∀ x ∈ T'.attachments, x.sandbox ≠ a → x ∈ T.attachments

namespace SlotStep

variable {x : Option Slot}

theorem stepOf (h : SlotStep s s' t a S T T' x) : StepOf s s' t T T' where
  thread := h.thread
  threads := h.threads
  tid := h.tid
  sandboxes := by
    intro a' S' ha'
    rw [h.sandboxes] at ha'
    rcases update_some_cases ha' with ⟨rfl, rfl⟩ | ⟨-, ha'⟩
    · exact ⟨S, h.sandbox, S.setSlot_like T.tid x⟩
    · exact ⟨S', ha', .refl S' T.tid⟩
  kept := by
    intro a' S' ha'
    rw [h.sandboxes]
    rcases eq_or_ne a' a with rfl | hne
    · exact ⟨_, Function.update_self ..⟩
    · exact ⟨S', by rw [Function.update_of_ne hne, ha']⟩
  counter := h.counter
  nextNode := h.nextNode
  nextCtx := h.nextCtx
  ctxs_lt := h.ctxs_lt
  ctxs := fun c hc _ => h.ctxs c hc
  attachedCtxs := fun p c hc => (h.attachedCtxs p c hc).imp_right And.right

/-- A slot after the step is one from before, or is where `x` is. -/
theorem setSlot_cases {id : Nat} {slot : Slot}
    (hslot : (S.setSlot T.tid x).threadCtxs id = some slot) :
    (id = T.tid ∧ x = some slot) ∨ (id ≠ T.tid ∧ S.threadCtxs id = some slot) := by
  rcases eq_or_ne id T.tid with rfl | hid
  · rw [Sandbox.setSlot_self] at hslot
    exact .inl ⟨rfl, hslot⟩
  · rw [(S.setSlot_like T.tid x).threadCtxs id hid] at hslot
    exact .inr ⟨hid, hslot⟩

theorem node_lt (h : SlotStep s s' t a S T T' x) (hS : SandboxOk s S) (id : Nat) (slot : Slot)
    (hslot : (S.setSlot T.tid x).threadCtxs id = some slot) : slot.node < s'.nextNode := by
  rcases setSlot_cases hslot with ⟨-, hx⟩ | ⟨-, hold⟩
  · rcases h.node slot hx with ⟨old, hold, hnode⟩ | ⟨hnode, hlt⟩
    · rw [← hnode]
      exact Nat.lt_of_lt_of_le (hS.node_lt _ _ hold) h.nextNode
    · rw [hnode]
      exact hlt
  · exact Nat.lt_of_lt_of_le (hS.node_lt _ _ hold) h.nextNode

theorem node_inj (h : SlotStep s s' t a S T T' x) (hS : SandboxOk s S) (id : Nat) (slot : Slot)
    (id' : Nat) (slot' : Slot) (hslot : (S.setSlot T.tid x).threadCtxs id = some slot)
    (hslot' : (S.setSlot T.tid x).threadCtxs id' = some slot') (hnode : slot.node = slot'.node) :
    id = id' := by
  -- the slot at `x` has the node of a slot of the thread, or a new one
  have hother : ∀ {id slot slot'}, id ≠ T.tid → S.threadCtxs id = some slot → x = some slot' →
      slot.node ≠ slot'.node := by
    intro id slot slot' hid hslot hx hnode
    rcases h.node slot' hx with ⟨old, hold, hsame⟩ | ⟨hnew, -⟩
    · exact hid (hS.node_inj _ _ _ _ hslot hold (hnode.trans hsame.symm))
    · have := hS.node_lt _ _ hslot
      omega
  rcases setSlot_cases hslot with ⟨rfl, hx⟩ | ⟨hid, hold⟩ <;>
    rcases setSlot_cases hslot' with ⟨rfl, hx'⟩ | ⟨hid', hold'⟩
  · rfl
  · exact (hother hid' hold' hx hnode.symm).elim
  · exact (hother hid hold hx' hnode).elim
  · exact hS.node_inj _ _ _ _ hold hold' hnode

/-- The rule for such a step: what it leaves to show is about the thread and the
slot that it is on. -/
theorem inv (h : SlotStep s s' t a S T T' x) (hinv : Inv s) (hthread : ThreadOk s' T')
    (hpair : PairOk s' a (S.setSlot T.tid x) T') : Inv s' := by
  have hS := hinv.sandbox a S h.sandbox
  have hcases : ∀ a' S', s'.sandboxes a' = some S' →
      (a' = a ∧ S' = S.setSlot T.tid x) ∨ (a' ≠ a ∧ s.sandboxes a' = some S') := by
    intro a' S' ha'
    rw [h.sandboxes] at ha'
    exact update_some_cases ha'
  apply h.stepOf.inv hinv hthread
  · intro a' S' ha' id slot hslot
    rcases hcases a' S' ha' with ⟨rfl, rfl⟩ | ⟨-, ha'⟩
    · exact h.node_lt hS id slot hslot
    · exact Nat.lt_of_lt_of_le ((hinv.sandbox a' S' ha').node_lt id slot hslot) h.nextNode
  · intro a' S' ha' id slot id' slot' hslot hslot'
    rcases hcases a' S' ha' with ⟨rfl, rfl⟩ | ⟨-, ha'⟩
    · exact h.node_inj hS id slot id' slot' hslot hslot'
    · exact (hinv.sandbox a' S' ha').node_inj id slot id' slot' hslot hslot'
  · intro a' S' ha'
    rcases hcases a' S' ha' with ⟨rfl, rfl⟩ | ⟨hne, ha'⟩
    · exact hpair
    · have hid : S'.id ≠ S.id := fun hid => hne (hinv.ids _ _ _ _ ha' h.sandbox hid)
      apply (hinv.pair t T a' S' h.thread ha').other h.tid _ h.exiting (h.phase a' hne).1
        (h.phase a' hne).2 (h.kept a' hne)
      · intro y hy hya
        exact h.old y hy (hya ▸ hne)
      · intro c
        refine ⟨fun hc => ?_, h.attached_sub _⟩
        exact (h.attachedCtxs _ _ hc).resolve_right (fun hp => hid hp.1)
      · intro hlast
        rcases h.last with ⟨hsame, hptr⟩ | hlast' | hlast'
        · exact ⟨hsame ▸ hlast, hptr⟩
        · exact absurd (hlast.symm.trans hlast') hid
        · have := (hinv.sandbox a' S' ha').id_pos
          omega

end SlotStep

end LfiRuntime.ThreadCtx
