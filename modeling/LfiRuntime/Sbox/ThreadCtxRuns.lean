import LfiRuntime.Sbox.ThreadCtxInv

/-!
Every step keeps the invariant, so in every run `get_thread_ctx` returns the
slot of the thread. What a public operation of `Sandbox<LFI>` does with the
context in it is a list of accesses.
-/

namespace LfiRuntime.ThreadCtx

open LfiRuntime.Runs

variable {s s' : State} {t a : Nat} {S : Sandbox} {T T' : Thread} {slot : Slot}

theorem Phase.mayCall.ne_detaching {p : Phase} (h : p.mayCall) (a : Nat) : p ≠ .detaching a := by
  rintro rfl
  exact h

/-! `get_thread_ctx`, with and without `lfi_clone` after it. -/

namespace Gets

/-- The context of the slot, and where the thread has it from. -/
theorem ctx_main (h : Gets s a S T slot T') (hpair : PairOk s a S T)
    (hmain : S.mainThreadTid = T.tid) : slot.ctx = some S.mainCtx := by
  rcases h.found with hold | ⟨-, rfl⟩
  · exact (hpair.main hmain).1 slot hold
  · exact if_pos hmain

theorem ctx_attached (h : Gets s a S T slot T') (hpair : PairOk s a S T)
    (hcall : T.phase.mayCall) (hmain : S.mainThreadTid ≠ T.tid) {c : Nat}
    (hc : slot.ctx = some c) : (S.id, c) ∈ T.attachedCtxs := by
  rcases h.found with hold | ⟨-, rfl⟩
  · exact hpair.attached hmain (hcall.ne_detaching a) slot hold c hc
  · rw [Sandbox.newSlot, if_neg hmain] at hc
    cases hc

theorem ctx_of_attached (h : Gets s a S T slot T') (hpair : PairOk s a S T)
    (he : ¬T.phase.exiting) {c : Nat} (hc : (S.id, c) ∈ T.attachedCtxs) :
    slot.ctx = some c := by
  obtain ⟨old, hold, hctx⟩ := hpair.slot he c hc
  rcases h.found with hfound | ⟨hnone, -⟩
  · rw [hfound] at hold
    cases hold
    exact hctx
  · rw [hnone] at hold
    cases hold

theorem attachment (h : Gets s a S T slot T') (hpair : PairOk s a S T)
    (hmain : S.mainThreadTid ≠ T.tid) : ⟨a, T.tid⟩ ∈ T'.attachments := by
  rw [h.attachments]
  split
  · exact List.mem_append_right _ (List.mem_singleton_self _)
  · rename_i hne
    rcases h.found with hfound | ⟨hnone, -⟩
    · exact hpair.attachment hmain slot hfound
    · exact absurd ⟨hnone, hmain⟩ hne

theorem mem_attachments (h : Gets s a S T slot T') {x : ThreadAttachment}
    (hx : x ∈ T'.attachments) :
    x ∈ T.attachments ∨ x = ⟨a, T.tid⟩ ∧ S.mainThreadTid ≠ T.tid := by
  rw [h.attachments] at hx
  split at hx
  · rename_i hnew
    rcases List.mem_append.mp hx with hx | hx
    · exact .inl hx
    · exact .inr ⟨List.mem_singleton.mp hx, hnew.2⟩
  · exact .inl hx

theorem subset_attachments (h : Gets s a S T slot T') {x : ThreadAttachment}
    (hx : x ∈ T.attachments) : x ∈ T'.attachments := by
  rw [h.attachments]
  split
  · exact List.mem_append_left _ hx
  · exact hx

/-- The slot of the thread after `get_thread_ctx`, whatever is in it then. -/
theorem slotStep (h : Gets s a S T slot T') (ht : s.threads t = some T)
    (ha : s.sandboxes a = some S) (hcall : T.phase.mayCall) {U : Thread} {new : Slot}
    (hnode : new.node = slot.node) (hU : U = { T' with attachedCtxs := U.attachedCtxs })
    (hthreads : s'.threads = Function.update s.threads t (some U))
    (hsandboxes : s'.sandboxes = Function.update s.sandboxes a (some (S.setSlot T.tid (some new))))
    (hcounter : s'.sandboxIdCounter = s.sandboxIdCounter)
    (hnext : s'.nextNode = s.nextNode + 1) (hctx : s.nextCtx ≤ s'.nextCtx)
    (hlt : ∀ c p, s'.ctxs c = some p → c < s'.nextCtx ∧ p < s'.sandboxIdCounter)
    (hctxs : ∀ c < s.nextCtx, s'.ctxs c = s.ctxs c)
    (hattached : ∀ p c, (p, c) ∈ U.attachedCtxs →
      (p, c) ∈ T.attachedCtxs ∨ p = S.id ∧ s.nextCtx ≤ c)
    (hsub : ∀ x ∈ T.attachedCtxs, x ∈ U.attachedCtxs) :
    SlotStep s s' t a S T U (some new) where
  thread := ht
  sandbox := ha
  threads := hthreads
  sandboxes := hsandboxes
  tid := by rw [hU, h.tid]
  counter := hcounter
  nextNode := by omega
  nextCtx := hctx
  ctxs_lt := hlt
  ctxs := hctxs
  attachedCtxs := hattached
  attached_sub := hsub
  node := by
    rintro _ ⟨⟩
    rcases h.found with hfound | ⟨-, hslot⟩
    · exact .inl ⟨slot, hfound, hnode.symm⟩
    · refine .inr ⟨?_, by omega⟩
      rw [hnode, hslot]
      rfl
  last := by
    rw [hU]
    exact .inr (.inl h.lastSandboxId)
  exiting := by
    rw [hU, h.phase]
    exact id
  phase := by
    intro a' _
    rw [hU, h.phase]
    exact ⟨hcall.ne_detaching a', hcall.ne_detaching a'⟩
  kept := by
    intro a' _ hx
    rw [hU]
    exact h.subset_attachments hx
  old := by
    intro x hx hne
    rw [hU] at hx
    rcases h.mem_attachments hx with hold | ⟨rfl, -⟩
    · exact hold
    · exact absurd rfl hne

theorem threadOk (h : Gets s a S T slot T') (hinv : Inv s) (ht : s.threads t = some T)
    (ha : s.sandboxes a = some S) (hclean : T.phase = .cleaned → S.mainThreadTid = T.tid)
    (hcounter : s'.sandboxIdCounter = s.sandboxIdCounter)
    (hkept : ∀ a S, s.sandboxes a = some S → ∃ S', s'.sandboxes a = some S')
    (hctxs : ∀ c < s.nextCtx, s'.ctxs c = s.ctxs c) : ThreadOk s' T' := by
  have hok := hinv.thread t T ht
  refine ⟨?_, ?_, ?_, ?_, ?_, ?_⟩
  · rw [h.lastSandboxId, hcounter]
    exact (hinv.sandbox a S ha).id_lt
  · intro x hx
    rw [h.tid]
    rcases h.mem_attachments hx with hold | ⟨rfl, -⟩
    · obtain ⟨hid, R, hR⟩ := hok.attachments x hold
      exact ⟨hid, hkept _ _ hR⟩
    · exact ⟨rfl, hkept _ _ ha⟩
  · rw [h.phase]
    intro hphase
    rw [h.attachments, if_neg, hok.cleaned hphase]
    exact fun hnew => hnew.2 (hclean hphase)
  · rw [h.attachedCtxs]
    exact hok.procs
  · rw [h.attachedCtxs]
    exact hok.ctxs
  · rw [h.attachedCtxs]
    intro x hx
    have hlive := hok.live x hx
    rw [hctxs _ (hinv.ctxs_lt _ _ hlive).1, hlive]

end Gets

theorem got_kept (s : State) (t a : Nat) (S : Sandbox) (U : Thread) (p : Option Nat) (b : Nat)
    (R : Sandbox) (hb : s.sandboxes b = some R) :
    ∃ R', (s.got t a ⟨p, S, U⟩).sandboxes b = some R' := by
  rcases eq_or_ne b a with rfl | hne
  · exact ⟨S, Function.update_self ..⟩
  · exact ⟨R, by rw [← hb]; exact Function.update_of_ne hne _ _⟩

/-- `get_thread_ctx` keeps the invariant. -/
theorem Gets.got_inv (h : Gets s a S T slot T') (hinv : Inv s) (ht : s.threads t = some T)
    (ha : s.sandboxes a = some S) (hcall : T.phase.mayCall)
    (hclean : T.phase = .cleaned → S.mainThreadTid = T.tid) :
    Inv (s.got t a ⟨some slot.node, S.setSlot T.tid (some slot), T'⟩) := by
  have hpair := hinv.pair t T a S ht ha
  have hstep : SlotStep s (s.got t a ⟨some slot.node, S.setSlot T.tid (some slot), T'⟩) t a S T T'
      (some slot) := by
    refine h.slotStep ht ha hcall rfl rfl rfl rfl rfl rfl (Nat.le_refl _) hinv.ctxs_lt
      (fun _ _ => rfl) ?_ ?_ <;> rw [h.attachedCtxs]
    · exact fun _ _ => .inl
    · exact fun _ => id
  apply hstep.inv hinv (h.threadOk hinv ht ha hclean rfl (got_kept s t a _ _ _) (fun _ _ => rfl))
  have hget : ∀ {slot'}, (S.setSlot T.tid (some slot)).threadCtxs T.tid = some slot' →
      slot' = slot := by
    intro slot' hslot'
    rw [Sandbox.setSlot_self] at hslot'
    exact (Option.some.inj hslot').symm
  refine ⟨?_, ?_, ?_, ?_, ?_, ?_⟩ <;> rw [h.tid]
  · intro _ _
    exact ⟨slot, S.setSlot_self .., h.lastCtxp⟩
  · rw [h.attachedCtxs]
    intro hmain
    obtain ⟨-, hatt, hctxs⟩ := hpair.main hmain
    refine ⟨?_, ?_, hctxs⟩
    · intro slot' hslot'
      rw [hget hslot']
      exact h.ctx_main hpair hmain
    · intro x hx
      rcases h.mem_attachments hx with hold | ⟨-, hne⟩
      · exact hatt x hold
      · exact absurd hmain hne
  · intro hmain _ _
    exact h.attachment hpair hmain
  · rw [h.attachedCtxs]
    intro hmain _ slot' hslot' c hc
    rw [hget hslot'] at hc
    exact h.ctx_attached hpair hcall hmain hc
  · rw [h.phase, h.attachedCtxs]
    intro he c hc
    exact ⟨slot, S.setSlot_self .., h.ctx_of_attached hpair he hc⟩
  · rw [h.phase]
    exact fun _ hd => absurd hd (hcall.ne_detaching a)

/-- The thread after `lfi_clone`. -/
def Thread.cloned (T : Thread) (S : Sandbox) (c : Nat) : Thread :=
  { T with attachedCtxs := (S.id, c) :: T.attachedCtxs }

/-- The state after `get_thread_ctx` and `lfi_clone`. -/
def State.clone (s : State) (t a : Nat) (S : Sandbox) (T T' : Thread) (slot : Slot) : State :=
  { ((s.got t a ⟨some slot.node, S.setSlot T.tid (some ⟨slot.node, some s.nextCtx⟩),
      T'.cloned S s.nextCtx⟩).setCtx s.nextCtx (some S.id)) with nextCtx := s.nextCtx + 1 }

theorem State.clone_ctxs (s : State) (t a : Nat) (S : Sandbox) (T T' : Thread) (slot : Slot) :
    (s.clone t a S T T' slot).ctxs = Function.update s.ctxs s.nextCtx (some S.id) := rfl

/-- A null context is nowhere: the thread is not the main one and not attached. -/
theorem Gets.not_attached (h : Gets s a S T slot T') (hpair : PairOk s a S T)
    (hcall : T.phase.mayCall) (hclean : T.phase = .cleaned → S.mainThreadTid = T.tid)
    (hnull : slot.ctx = none) :
    S.mainThreadTid ≠ T.tid ∧ T.phase = .running ∧ ∀ c, (S.id, c) ∉ T.attachedCtxs := by
  have hmain : S.mainThreadTid ≠ T.tid := by
    intro hmain
    rw [h.ctx_main hpair hmain] at hnull
    cases hnull
  have hrun : T.phase = .running := by
    rcases hp : T.phase with _ | _ | _ | _
    · rfl
    · exact absurd hp (hcall.ne_detaching _)
    · rw [hp] at hcall
      exact hcall.elim
    · exact absurd (hclean hp) hmain
  refine ⟨hmain, hrun, fun c hc => ?_⟩
  rw [h.ctx_of_attached hpair (by simp [hrun, Phase.exiting]) hc] at hnull
  cases hnull

/-- `lfi_clone` through the pointer that `get_thread_ctx` returned keeps it too. -/
theorem Gets.clone_inv (h : Gets s a S T slot T') (hinv : Inv s) (ht : s.threads t = some T)
    (ha : s.sandboxes a = some S) (hcall : T.phase.mayCall)
    (hclean : T.phase = .cleaned → S.mainThreadTid = T.tid) (hnull : slot.ctx = none) :
    Inv (s.clone t a S T T' slot) := by
  have hpair := hinv.pair t T a S ht ha
  obtain ⟨hmain, hrun, hnone⟩ := h.not_attached hpair hcall hclean hnull
  have hok := hinv.thread t T ht
  have hctxs : ∀ c < s.nextCtx, (s.clone t a S T T' slot).ctxs c = s.ctxs c :=
    fun c hc => by rw [State.clone_ctxs, Function.update_of_ne (Nat.ne_of_lt hc)]
  have hstep : SlotStep s (s.clone t a S T T' slot) t a S T (T'.cloned S s.nextCtx)
      (some ⟨slot.node, some s.nextCtx⟩) := by
    refine h.slotStep ht ha hcall rfl rfl rfl rfl rfl rfl (Nat.le_succ _) ?_ hctxs ?_ ?_
    · intro c p hc
      rw [State.clone_ctxs] at hc
      rcases eq_or_ne c s.nextCtx with rfl | hne
      · rw [Function.update_self] at hc
        cases hc
        exact ⟨Nat.lt_succ_self _, (hinv.sandbox a S ha).id_lt⟩
      · rw [Function.update_of_ne hne] at hc
        exact ⟨Nat.lt_succ_of_lt (hinv.ctxs_lt c p hc).1, (hinv.ctxs_lt c p hc).2⟩
    · intro p c hc
      rcases List.mem_cons.mp hc with heq | hold
      · cases heq
        exact .inr ⟨rfl, Nat.le_refl _⟩
      · exact .inl (h.attachedCtxs ▸ hold)
    · intro x hx
      exact List.mem_cons_of_mem _ (h.attachedCtxs ▸ hx)
  have hthread : ThreadOk (s.clone t a S T T' slot) (T'.cloned S s.nextCtx) := by
    have hok' : ThreadOk (s.clone t a S T T' slot) T' :=
      h.threadOk hinv ht ha hclean rfl (got_kept s t a _ _ _) hctxs
    refine ⟨hok'.lastId, hok'.attachments, hok'.cleaned, ?_, ?_, ?_⟩
    · refine List.nodup_cons.mpr ⟨?_, hok'.procs⟩
      rw [h.attachedCtxs]
      intro hmem
      obtain ⟨⟨p, c⟩, hc, rfl⟩ := List.mem_map.mp hmem
      exact hnone c hc
    · refine List.nodup_cons.mpr ⟨?_, hok'.ctxs⟩
      rw [h.attachedCtxs]
      intro hmem
      obtain ⟨⟨p, c⟩, hc, rfl⟩ := List.mem_map.mp hmem
      exact absurd (hinv.ctxs_lt _ _ (hok.live _ hc)).1 (Nat.lt_irrefl _)
    · intro x hx
      rcases List.mem_cons.mp hx with rfl | hold
      · exact Function.update_self ..
      · exact hok'.live x hold
  apply hstep.inv hinv hthread
  have hphase : (T'.cloned S s.nextCtx).phase = .running := h.phase.trans hrun
  refine ⟨?_, ?_, ?_, ?_, ?_, ?_⟩ <;> rw [show (T'.cloned S s.nextCtx).tid = T.tid from h.tid]
  · intro _ _
    exact ⟨_, S.setSlot_self .., h.lastCtxp⟩
  · exact fun hmain' => absurd hmain' hmain
  · intro _ _ _
    exact h.attachment hpair hmain
  · intro _ _ slot' hslot' c hc
    rw [Sandbox.setSlot_self] at hslot'
    cases hslot'
    cases hc
    exact List.mem_cons_self ..
  · intro _ c hc
    refine ⟨_, S.setSlot_self .., ?_⟩
    rcases List.mem_cons.mp hc with heq | hold
    · cases heq
      rfl
    · exact absurd (h.attachedCtxs ▸ hold) (hnone c)
  · rw [hphase]
    intro _ hd
    cases hd

theorem Gets.read (h : Gets s a S T slot T') :
    (Got.mk (some slot.node) (S.setSlot T.tid (some slot)) T').read = some slot.ctx := by
  simp [Got.read, h.tid]

theorem Gets.obtain_eq (h : Gets s a S T slot T') :
    s.obtain t a ⟨some slot.node, S.setSlot T.tid (some slot), T'⟩ =
      if slot.ctx = none then s.clone t a S T T' slot
      else s.got t a ⟨some slot.node, S.setSlot T.tid (some slot), T'⟩ := by
  rw [State.obtain, h.read]
  simp only [Option.some.injEq]
  split
  · simp only [State.clone, Got.lfiClone, Thread.cloned, h.tid, Sandbox.setSlot, Option.map_some,
      Function.update_idem]
  · rfl

theorem access_inv (acc : Access) (hinv : Inv s) (ht : s.threads t = some T)
    (ha : s.sandboxes a = some S) (hcall : T.phase.mayCall)
    (hclean : T.phase = .cleaned → S.mainThreadTid = T.tid) : Inv (s.access t a S T acc) := by
  obtain ⟨slot, T', hget, hgets⟩ := getThreadCtx_spec (hinv.pair t T a S ht ha) hcall hclean
  cases acc with
  | get =>
      simp only [State.access, hget]
      exact hgets.got_inv hinv ht ha hcall hclean
  | regs =>
      simp only [State.access, hget]
      exact hgets.got_inv hinv ht ha hcall hclean
  | obtain =>
      simp only [State.access, hget]
      rw [hgets.obtain_eq]
      split
      · rename_i hnull
        exact hgets.clone_inv hinv ht ha hcall hclean hnull
      · exact hgets.got_inv hinv ht ha hcall hclean

/-! The other steps. -/

theorem setPhase_inv {p : Phase} (hinv : Inv s) (ht : s.threads t = some T)
    (hexit : T.phase.exiting → p.exiting) (hphase : ∀ a, T.phase ≠ .detaching a)
    (hphase' : ∀ a, p ≠ .detaching a) (hclean : p = .cleaned → T.attachments = []) :
    Inv (s.setThread t (some { T with phase := p })) := by
  have hok := hinv.thread t T ht
  have hstep : StepOf s (s.setThread t (some { T with phase := p })) t T { T with phase := p } :=
    ⟨ht, rfl, rfl, fun _ S' ha => ⟨S', ha, .refl S' T.tid⟩, fun _ S ha => ⟨S, ha⟩, rfl,
      Nat.le_refl _, Nat.le_refl _, hinv.ctxs_lt, fun _ _ _ => rfl, fun _ _ => .inl⟩
  refine hstep.inv hinv ⟨hok.lastId, hok.attachments, hclean, hok.procs, hok.ctxs, hok.live⟩
    (fun a S ha => (hinv.sandbox a S ha).node_lt) (fun a S ha => (hinv.sandbox a S ha).node_inj) ?_
  intro a S ha
  exact (hinv.pair t T a S ht ha).other rfl (fun hid => ⟨hid, rfl⟩) hexit (hphase a) (hphase' a)
    id (fun _ hx _ => hx) (fun _ => Iff.rfl)

/-- The attached context of a process is the one that `lfi_linux_detach_thread` finds. -/
theorem find_attached {xs : List (Nat × Nat)} {p c : Nat} (hnodup : (xs.map Prod.fst).Nodup)
    (hmem : (p, c) ∈ xs) : xs.find? (fun x => x.1 = p) = some (p, c) := by
  induction xs with
  | nil => cases hmem
  | cons x xs ih =>
      rw [List.map_cons, List.nodup_cons] at hnodup
      rcases List.mem_cons.mp hmem with rfl | hmem
      · simp
      · have hne : x.1 ≠ p := by
          rintro rfl
          exact hnodup.1 (List.mem_map.mpr ⟨_, hmem, rfl⟩)
        rw [List.find?_cons_of_neg (by simpa using hne)]
        exact ih hnodup.2 hmem

theorem not_mem_eraseP {xs : List (Nat × Nat)} {p c : Nat} (hnodup : (xs.map Prod.fst).Nodup) :
    (p, c) ∉ xs.eraseP (fun x => x.1 = p) := by
  induction xs with
  | nil => simp
  | cons x xs ih =>
      rw [List.map_cons, List.nodup_cons] at hnodup
      rcases eq_or_ne x.1 p with rfl | hne
      · rw [List.eraseP_cons_of_pos (by simp)]
        intro hmem
        exact hnodup.1 (List.mem_map.mpr ⟨_, hmem, rfl⟩)
      · rw [List.eraseP_cons_of_neg (by simpa using hne)]
        intro hmem
        rcases List.mem_cons.mp hmem with rfl | hmem
        · exact hne rfl
        · exact ih hnodup.2 hmem

theorem mem_eraseP_of_ne {xs : List (Nat × Nat)} {p q c : Nat} (hne : q ≠ p) :
    (q, c) ∈ xs.eraseP (fun x => x.1 = p) ↔ (q, c) ∈ xs :=
  List.mem_eraseP_of_neg (by simpa using hne)

/-- What `lfi_linux_detach_thread` does to a context: it frees the one attached. -/
theorem State.linuxDetachThread_ctxs (s : State) (t a : Nat) (S : Sandbox) (T : Thread) (c : Nat) :
    (s.linuxDetachThread t a S T).ctxs c = s.ctxs c ∨
      (s.linuxDetachThread t a S T).ctxs c = none ∧ (S.id, c) ∈ T.attachedCtxs := by
  rcases hfind : T.attachedCtxs.find? fun x => x.1 = S.id with _ | ⟨p, d⟩
  · simp only [linuxDetachThread, hfind, true_or]
  · simp only [linuxDetachThread, hfind]
    rcases eq_or_ne c d with rfl | hne
    · have hp : p = S.id := by simpa using List.find?_some hfind
      subst hp
      exact .inr ⟨Function.update_self .., List.mem_of_find?_eq_some hfind⟩
    · exact .inl (Function.update_of_ne hne _ _)

theorem detach_inv (hinv : Inv s) (ht : s.threads t = some T) (ha : s.sandboxes a = some S)
    (hrun : T.phase = .running) : Inv (s.linuxDetachThread t a S T) := by
  have hok := hinv.thread t T ht
  have hpair := hinv.pair t T a S ht ha
  have hgone : ∀ c, (S.id, c) ∉ T.attachedCtxs.eraseP fun x => x.1 = S.id :=
    fun c => not_mem_eraseP hok.procs
  have hctxs : ∀ c, (∀ p, (p, c) ∉ T.attachedCtxs) →
      (s.linuxDetachThread t a S T).ctxs c = s.ctxs c := by
    intro c hc
    exact (s.linuxDetachThread_ctxs t a S T c).resolve_right (fun h => hc _ h.2)
  have hstep : StepOf s (s.linuxDetachThread t a S T) t T { T with
      attachedCtxs := T.attachedCtxs.eraseP fun x => x.1 = S.id
      phase := .detaching a } := by
    refine ⟨ht, rfl, rfl, fun _ S' ha => ⟨S', ha, .refl S' T.tid⟩, fun _ S ha => ⟨S, ha⟩, rfl,
      Nat.le_refl _, Nat.le_refl _, ?_, fun c _ hc => hctxs c hc,
      fun p c hc => .inl (List.mem_of_mem_eraseP hc)⟩
    intro c p hc
    rcases s.linuxDetachThread_ctxs t a S T c with hsame | ⟨hnone, -⟩
    · exact hinv.ctxs_lt c p (hsame.symm.trans hc)
    · rw [hnone] at hc
      cases hc
  have hthread : ThreadOk (s.linuxDetachThread t a S T) { T with
      attachedCtxs := T.attachedCtxs.eraseP fun x => x.1 = S.id
      phase := .detaching a } := by
    have hsub : (T.attachedCtxs.eraseP fun x => x.1 = S.id).Sublist T.attachedCtxs :=
      List.eraseP_sublist
    refine ⟨hok.lastId, hok.attachments, nofun, hok.procs.sublist (hsub.map _),
      hok.ctxs.sublist (hsub.map _), fun x hx => ?_⟩
    have hmem := List.mem_of_mem_eraseP hx
    rcases s.linuxDetachThread_ctxs t a S T x.2 with hsame | ⟨-, hfreed⟩
    · rw [hsame]
      exact hok.live x hmem
    · -- a context is on the list once, and the one of this process is off it
      have hlive := hok.live x hmem
      rw [hok.live (S.id, x.2) hfreed] at hlive
      have hid : S.id = x.1 := Option.some.inj hlive
      exact (hgone x.2 (hid ▸ hx)).elim
  refine hstep.inv hinv hthread (fun a S ha => (hinv.sandbox a S ha).node_lt)
    (fun a S ha => (hinv.sandbox a S ha).node_inj) ?_
  intro b R hb
  rcases eq_or_ne b a with rfl | hne
  · have hR : S = R := Option.some.inj (ha.symm.trans hb)
    subst hR
    refine ⟨fun hid _ => hpair.cache hid (by simp [hrun, Phase.exiting]), ?_, hpair.attachment,
      fun _ hd => absurd rfl hd, fun _ c hc => (hgone c hc).elim, fun hmain _ => ⟨hgone, ?_⟩⟩
    · intro hmain
      obtain ⟨hslot, hatt, -⟩ := hpair.main hmain
      exact ⟨hslot, hatt, hgone⟩
    · intro slot hslot c hc
      have hmem := hpair.attached hmain (by simp [hrun]) slot hslot c hc
      have hlive := hok.live _ hmem
      refine ⟨?_, (hinv.ctxs_lt _ _ hlive).1⟩
      rw [State.linuxDetachThread]
      simp only [find_attached hok.procs hmem, Function.update_self]
  · have hid : R.id ≠ S.id := fun hid => hne (hinv.ids _ _ _ _ hb ha hid)
    refine (hinv.pair t T b R ht hb).other rfl (fun h => ⟨h, rfl⟩) (by simp [hrun, Phase.exiting])
      (by simp [hrun]) ?_ id (fun _ hx _ => hx) (fun c => mem_eraseP_of_ne hid)
    rintro ⟨⟩
    exact hne rfl

/-- The rest of `detach_thread` keeps the invariant. -/
theorem detached_inv (hinv : Inv s) (ht : s.threads t = some T) (ha : s.sandboxes a = some S)
    (hrun : T.phase = .detaching a) : Inv (s.detachThread t a S T) := by
  have hok := hinv.thread t T ht
  have hpair := hinv.pair t T a S ht ha
  have hpos := (hinv.sandbox a S ha).id_pos
  let T' : Thread := { T with
    attachments := T.attachments.filter fun x => x.sandbox ≠ a
    lastSandboxId := if T.lastSandboxId = S.id then 0 else T.lastSandboxId
    lastCtxp := if T.lastSandboxId = S.id then none else T.lastCtxp
    phase := .running }
  have hlast : T'.lastSandboxId = T.lastSandboxId ∧ T'.lastCtxp = T.lastCtxp ∧
      T.lastSandboxId ≠ S.id ∨ T'.lastSandboxId = 0 := by
    rcases eq_or_ne T.lastSandboxId S.id with hid | hne
    · exact .inr (if_pos hid)
    · exact .inl ⟨if_neg hne, if_neg hne, hne⟩
  have hmem : ∀ x, x ∈ T'.attachments ↔ x ∈ T.attachments ∧ x.sandbox ≠ a := by
    simp [T']
  -- the thread has released its context, or is the main one and has none of its own
  have hnone : ∀ c, (S.id, c) ∉ T.attachedCtxs := by
    rcases eq_or_ne S.mainThreadTid T.tid with hmain | hmain
    · exact (hpair.main hmain).2.2
    · exact (hpair.freed hmain hrun).1
  have hstep : SlotStep s (s.detachThread t a S T) t a S T T' none := by
    refine ⟨ht, ha, rfl, rfl, rfl, rfl, Nat.le_refl _, Nat.le_refl _, hinv.ctxs_lt,
      fun _ _ => rfl, fun _ _ => .inl, fun _ => id, fun _ h => (by cases h), ?_, ?_, ?_, ?_, ?_⟩
    · rcases hlast with ⟨hid, hptr, -⟩ | hzero
      · exact .inl ⟨hid, hptr⟩
      · exact .inr (.inr hzero)
    · simp [hrun, Phase.exiting]
    · intro a' hne
      refine ⟨?_, fun h => (by cases h)⟩
      rw [hrun]
      simpa using hne.symm
    · intro a' hne hx
      exact (hmem _).mpr ⟨hx, hne⟩
    · intro x hx _
      exact ((hmem x).mp hx).1
  apply hstep.inv hinv
  · refine ⟨?_, ?_, fun h => (by cases h), hok.procs, hok.ctxs, hok.live⟩
    · rcases hlast with ⟨hid, -⟩ | hzero
      · rw [hid]
        exact hok.lastId
      · rw [hzero]
        exact Nat.lt_of_lt_of_le hpos (Nat.le_of_lt (hinv.sandbox a S ha).id_lt)
    · intro x hx
      obtain ⟨hold, -⟩ := (hmem x).mp hx
      obtain ⟨hid, R, hR⟩ := hok.attachments x hold
      exact ⟨hid, hstep.stepOf.kept _ _ hR⟩
  · have hslot : (S.setSlot T.tid none).threadCtxs T'.tid = none := S.setSlot_self ..
    refine ⟨?_, ?_, ?_, ?_, fun _ c hc => absurd hc (hnone c), fun _ h => (by cases h)⟩
    · intro hid
      rcases hlast with ⟨hsame, -, hne⟩ | hzero
      · exact absurd (hsame.symm.trans hid) hne
      · rw [hzero] at hid
        exact absurd hid (Nat.ne_of_lt hpos)
    · exact fun _ => ⟨by simp [hslot], fun x hx => ((hmem x).mp hx).2, hnone⟩
    · simp [hslot]
    · simp [hslot]

/-- One turn of the loop in `~ThreadCleanup` keeps it. -/
theorem cleanup_inv {x : ThreadAttachment} {xs : List ThreadAttachment} (hinv : Inv s)
    (ht : s.threads t = some T) (hclean : T.phase = .cleaning) (hx : T.attachments = x :: xs)
    (ha : s.sandboxes x.sandbox = some S) :
    Inv ((s.setSandbox x.sandbox (some (S.setSlot x.id none))).setThread t
      (some { T with attachments := xs })) := by
  have hok := hinv.thread t T ht
  have hpair := hinv.pair t T _ S ht ha
  have hmem : x ∈ T.attachments := hx ▸ List.mem_cons_self ..
  have hsub : ∀ y ∈ xs, y ∈ T.attachments := fun y hy => hx ▸ List.mem_cons_of_mem _ hy
  have hmain : S.mainThreadTid ≠ T.tid := fun hmain => (hpair.main hmain).2.1 x hmem rfl
  rw [(hok.attachments x hmem).1]
  have hstep : SlotStep s ((s.setSandbox x.sandbox (some (S.setSlot T.tid none))).setThread t
      (some { T with attachments := xs })) t x.sandbox S T { T with attachments := xs } none := by
    refine ⟨ht, ha, rfl, rfl, rfl, rfl, Nat.le_refl _, Nat.le_refl _, hinv.ctxs_lt,
      fun _ _ => rfl, fun _ _ => .inl, fun _ => id, nofun, .inl ⟨rfl, rfl⟩, id, ?_, ?_,
      fun y hy _ => hsub y hy⟩
    · simp [hclean]
    · intro a' hne hy
      rw [hx] at hy
      rcases List.mem_cons.mp hy with rfl | hy
      · exact absurd rfl hne
      · exact hy
  apply hstep.inv hinv
  · refine ⟨hok.lastId, ?_, by simp [hclean], hok.procs, hok.ctxs, hok.live⟩
    intro y hy
    obtain ⟨hid, R, hR⟩ := hok.attachments y (hsub y hy)
    exact ⟨hid, hstep.stepOf.kept _ _ hR⟩
  · refine ⟨?_, ?_, ?_, ?_, ?_, ?_⟩
    · intro _ he
      exact absurd (he (by simp [hclean, Phase.exiting])) hmain
    · exact fun h => absurd h hmain
    · simp
    · simp
    · simp [hclean, Phase.exiting]
    · simp [hclean]

/-- So does one turn of the loop in `thread_destructor`. -/
theorem freeCtx_inv {x : Nat × Nat} {xs : List (Nat × Nat)} (hinv : Inv s)
    (ht : s.threads t = some T) (hclean : T.phase = .cleaned) (hx : T.attachedCtxs = x :: xs) :
    Inv ((s.setCtx x.2 none).setThread t (some { T with attachedCtxs := xs })) := by
  have hok := hinv.thread t T ht
  have hsub : ∀ y ∈ xs, y ∈ T.attachedCtxs := fun y hy => hx ▸ List.mem_cons_of_mem _ hy
  have hprocs := hok.procs
  have hnodup := hok.ctxs
  rw [hx, List.map_cons, List.nodup_cons] at hprocs hnodup
  have hctxs : ∀ c, c ≠ x.2 → (s.setCtx x.2 none).ctxs c = s.ctxs c :=
    fun c hne => Function.update_of_ne hne _ _
  have hstep : StepOf s ((s.setCtx x.2 none).setThread t (some { T with attachedCtxs := xs }))
      t T { T with attachedCtxs := xs } := by
    refine ⟨ht, rfl, rfl, fun _ S' ha => ⟨S', ha, .refl S' T.tid⟩, fun _ S ha => ⟨S, ha⟩, rfl,
      Nat.le_refl _, Nat.le_refl _, ?_, ?_, fun p c hc => .inl (hsub _ hc)⟩
    · intro c p hc
      rcases eq_or_ne c x.2 with rfl | hne
      · have hfreed : (s.setCtx x.2 none).ctxs x.2 = none := Function.update_self ..
        cases hfreed.symm.trans hc
      · exact hinv.ctxs_lt c p ((hctxs c hne).symm.trans hc)
    · intro c _ hc
      apply hctxs
      rintro rfl
      exact hc x.1 (hx ▸ List.mem_cons_self ..)
  apply hstep.inv hinv
  · refine ⟨hok.lastId, hok.attachments, hok.cleaned, hprocs.2, hnodup.2, ?_⟩
    intro y hy
    have hne : y.2 ≠ x.2 := by
      intro hsame
      exact hnodup.1 (hsame ▸ List.mem_map_of_mem hy)
    exact (hctxs _ hne).trans (hok.live y (hsub y hy))
  · exact fun a S ha => (hinv.sandbox a S ha).node_lt
  · exact fun a S ha => (hinv.sandbox a S ha).node_inj
  · intro a S ha
    have hpair := hinv.pair t T a S ht ha
    refine ⟨hpair.cache, ?_, hpair.attachment, ?_, ?_, ?_⟩
    · intro hmain
      obtain ⟨hslot, hatt, hnone⟩ := hpair.main hmain
      exact ⟨hslot, hatt, fun c hc => hnone c (hsub _ hc)⟩
    · -- a slot of another sandbox would still have its attachment
      intro hmain _ slot hslot
      have hatt := hpair.attachment hmain slot hslot
      rw [hok.cleaned hclean] at hatt
      cases hatt
    · simp [hclean, Phase.exiting]
    · simp [hclean]

theorem spawn_inv {tid : Nat} (hinv : Inv s) (hfree : s.threads t = none)
    (hid : ∀ t' T', s.threads t' = some T' → T'.tid ≠ tid) :
    Inv (s.setThread t (some (.start tid))) := by
  have hcases : ∀ t' U, (s.setThread t (some (.start tid))).threads t' = some U →
      (t' = t ∧ U = .start tid) ∨ s.threads t' = some U :=
    fun t' U hU => (update_some_cases hU).imp_right And.right
  have hkept : ∀ t' U, s.threads t' = some U →
      (s.setThread t (some (.start tid))).threads t' = some U := by
    intro t' U hU
    rw [← hU]
    apply Function.update_of_ne
    rintro rfl
    rw [hfree] at hU
    cases hU
  refine ⟨hinv.counter_pos, ?_, ?_, ?_, ?_, ?_, ?_, ?_, ?_⟩
  · intro t₁ T₁ t₂ T₂ h₁ h₂ htid
    rcases hcases _ _ h₁ with ⟨rfl, rfl⟩ | hold₁ <;>
      rcases hcases _ _ h₂ with ⟨rfl, rfl⟩ | hold₂
    · rfl
    · exact absurd htid.symm (hid _ _ hold₂)
    · exact absurd htid (hid _ _ hold₁)
    · exact hinv.tids _ _ _ _ hold₁ hold₂ htid
  · exact hinv.ids
  · exact hinv.ctxs_lt
  · intro t' U hU
    rcases hcases _ _ hU with ⟨rfl, rfl⟩ | hU
    · constructor <;> simp [Thread.start, State.setThread, hinv.counter_pos]
    · have hok := hinv.thread t' U hU
      exact ⟨hok.lastId, hok.attachments, hok.cleaned, hok.procs, hok.ctxs, hok.live⟩
  · intro a S ha
    have hok := hinv.sandbox a S ha
    refine ⟨hok.id_pos, hok.id_lt, hok.mainCtx, hok.node_lt, hok.node_inj, hok.main, ?_⟩
    intro id slot hslot
    exact (hok.owner id slot hslot).imp_right
      (fun ⟨t', U, hU, htid⟩ => ⟨t', U, hkept t' U hU, htid⟩)
  · intro t' U a S hU ha
    rcases hcases _ _ hU with ⟨rfl, rfl⟩ | hU
    · have hok := hinv.sandbox a S ha
      -- a slot with this id is one that the main thread left behind
      have hslot : S.mainThreadTid ≠ tid → ∀ slot, S.threadCtxs tid ≠ some slot := by
        intro hmain slot hslot
        rcases hok.owner tid slot hslot with hid' | ⟨t', U, hU, htid⟩
        · exact hmain hid'.symm
        · exact hid _ _ hU htid
      refine ⟨?_, ?_, ?_, ?_, ?_, nofun⟩
      · intro hlast
        exact absurd hlast (Nat.ne_of_lt hok.id_pos)
      · intro hmain
        exact ⟨hmain ▸ hok.main, by simp [Thread.start], by simp [Thread.start]⟩
      · exact fun hmain slot hs => absurd hs (hslot hmain slot)
      · exact fun hmain _ slot hs => absurd hs (hslot hmain slot)
      · simp [Thread.start]
    · exact (hinv.pair t' U a S hU ha).congr (.refl S (U.tid + 1)) (Nat.succ_ne_self _).symm
        (fun _ _ h => h) (Nat.le_refl _)
  · intro t₁ T₁ t₂ T₂ p₁ p₂ c h₁ h₂ hc₁ hc₂
    rcases hcases _ _ h₁ with ⟨rfl, rfl⟩ | h₁
    · cases hc₁
    · rcases hcases _ _ h₂ with ⟨rfl, rfl⟩ | h₂
      · cases hc₂
      · exact hinv.attached_excl _ _ _ _ _ _ _ h₁ h₂ hc₁ hc₂
  · intro t' U a S p c hU ha hc
    rcases hcases _ _ hU with ⟨rfl, rfl⟩ | hU
    · cases hc
    · exact hinv.attached_ne_main _ _ _ _ _ _ hU ha hc

theorem gone_inv (hinv : Inv s) (ht : s.threads t = some T) (hclean : T.phase = .cleaned) :
    Inv (s.setThread t none) := by
  have hback : ∀ t' U, (s.setThread t none).threads t' = some U →
      s.threads t' = some U := fun t' U hU => (of_update_none hU).2
  refine ⟨hinv.counter_pos, ?_, ?_, ?_, ?_, ?_, ?_, ?_, ?_⟩
  · exact fun _ _ _ _ h₁ h₂ => hinv.tids _ _ _ _ (hback _ _ h₁) (hback _ _ h₂)
  · exact hinv.ids
  · exact hinv.ctxs_lt
  · intro t' U hU
    have hok := hinv.thread t' U (hback _ _ hU)
    exact ⟨hok.lastId, hok.attachments, hok.cleaned, hok.procs, hok.ctxs, hok.live⟩
  · intro a S ha
    have hok := hinv.sandbox a S ha
    refine ⟨hok.id_pos, hok.id_lt, hok.mainCtx, hok.node_lt, hok.node_inj, hok.main, ?_⟩
    intro id slot hslot
    rcases hok.owner id slot hslot with hmain | ⟨t', U, hU, htid⟩
    · exact .inl hmain
    · rcases eq_or_ne t' t with rfl | hne
      · -- `~ThreadCleanup` has erased the slots of the thread but for its own sandboxes
        rw [ht] at hU
        cases hU
        subst htid
        by_contra hcon
        rw [not_or] at hcon
        have hatt := (hinv.pair t' T a S ht ha).attachment (fun h => hcon.1 h.symm) slot hslot
        rw [(hinv.thread t' T ht).cleaned hclean] at hatt
        cases hatt
      · exact .inr ⟨t', U, (Function.update_of_ne hne _ _).trans hU, htid⟩
  · intro t' U a S hU ha
    exact (hinv.pair t' U a S (hback _ _ hU) ha).congr (.refl S (U.tid + 1))
      (Nat.succ_ne_self _).symm (fun _ _ h => h) (Nat.le_refl _)
  · exact fun _ _ _ _ _ _ _ h₁ h₂ =>
      hinv.attached_excl _ _ _ _ _ _ _ (hback _ _ h₁) (hback _ _ h₂)
  · exact fun _ _ _ _ _ _ hU => hinv.attached_ne_main _ _ _ _ _ _ (hback _ _ hU)

theorem create_inv {tid : Nat} (hinv : Inv s) (hfree : s.sandboxes a = none) :
    Inv (s.create a tid) := by
  have hcases : ∀ b R, (s.create a tid).sandboxes b = some R →
      (b = a ∧ R = ⟨s.sandboxIdCounter, tid, s.nextCtx, fun _ => none⟩) ∨
        (b ≠ a ∧ s.sandboxes b = some R) := fun b R hR => update_some_cases hR
  have hctxs : ∀ c < s.nextCtx, (s.create a tid).ctxs c = s.ctxs c :=
    fun c hc => Function.update_of_ne (Nat.ne_of_lt hc) _ _
  have hnew : (s.create a tid).ctxs s.nextCtx = some s.sandboxIdCounter :=
    Function.update_self ..
  refine ⟨Nat.succ_pos _, ?_, ?_, ?_, ?_, ?_, ?_, ?_, ?_⟩
  · exact hinv.tids
  · intro b₁ R₁ b₂ R₂ h₁ h₂ hid
    rcases hcases _ _ h₁ with ⟨rfl, rfl⟩ | ⟨-, hold₁⟩ <;>
      rcases hcases _ _ h₂ with ⟨rfl, rfl⟩ | ⟨-, hold₂⟩
    · rfl
    · exact absurd hid.symm (Nat.ne_of_lt (hinv.sandbox _ _ hold₂).id_lt)
    · exact absurd hid (Nat.ne_of_lt (hinv.sandbox _ _ hold₁).id_lt)
    · exact hinv.ids _ _ _ _ hold₁ hold₂ hid
  · intro c p hc
    rcases eq_or_ne c s.nextCtx with rfl | hne
    · rw [hnew] at hc
      cases hc
      exact ⟨Nat.lt_succ_self _, Nat.lt_succ_self _⟩
    · have hold := hinv.ctxs_lt c p ((Function.update_of_ne hne _ _).symm.trans hc)
      exact ⟨Nat.lt_succ_of_lt hold.1, Nat.lt_succ_of_lt hold.2⟩
  · intro t' U hU
    have hok := hinv.thread t' U hU
    refine ⟨Nat.lt_succ_of_lt hok.lastId, ?_, hok.cleaned, hok.procs, hok.ctxs, ?_⟩
    · intro x hx
      obtain ⟨hid, R, hR⟩ := hok.attachments x hx
      refine ⟨hid, R, ?_⟩
      rw [← hR]
      apply Function.update_of_ne
      rintro rfl
      rw [hfree] at hR
      cases hR
    · intro x hx
      have hlive := hok.live x hx
      rw [hctxs _ (hinv.ctxs_lt _ _ hlive).1, hlive]
  · intro b R hb
    rcases hcases _ _ hb with ⟨rfl, rfl⟩ | ⟨-, hb⟩
    · exact ⟨hinv.counter_pos, Nat.lt_succ_self _, hnew, nofun, nofun, nofun, nofun⟩
    · have hok := hinv.sandbox b R hb
      refine ⟨hok.id_pos, Nat.lt_succ_of_lt hok.id_lt, ?_, hok.node_lt, hok.node_inj, hok.main,
        hok.owner⟩
      rw [hctxs _ (hinv.ctxs_lt _ _ hok.mainCtx).1, hok.mainCtx]
  · intro t' U b R hU hb
    have hok := hinv.thread t' U hU
    rcases hcases _ _ hb with ⟨rfl, rfl⟩ | ⟨-, hb⟩
    · have hnone : ∀ c, (s.sandboxIdCounter, c) ∉ U.attachedCtxs := by
        intro c hc
        exact absurd (hinv.ctxs_lt _ _ (hok.live _ hc)).2 (Nat.lt_irrefl _)
      refine ⟨?_, ?_, nofun, nofun, fun _ c hc => absurd hc (hnone c), fun _ _ => ⟨hnone, nofun⟩⟩
      · exact fun hlast => absurd hlast (Nat.ne_of_lt hok.lastId)
      · refine fun _ => ⟨nofun, fun x hx hxa => ?_, hnone⟩
        obtain ⟨-, R, hR⟩ := hok.attachments x hx
        rw [hxa, hfree] at hR
        cases hR
    · exact (hinv.pair t' U b R hU hb).congr (.refl R (U.tid + 1)) (Nat.succ_ne_self _).symm
        (fun c hlt hc => (hctxs c hlt).trans hc) (Nat.le_succ _)
  · exact hinv.attached_excl
  · intro t' U b R p c hU hb hc
    rcases hcases _ _ hb with ⟨rfl, rfl⟩ | ⟨-, hb⟩
    · have hlive := (hinv.thread t' U hU).live _ hc
      exact Nat.ne_of_gt (hinv.ctxs_lt _ _ hlive).1
    · exact hinv.attached_ne_main _ _ _ _ _ _ hU hb hc

theorem destroy_inv (hinv : Inv s) (ha : s.sandboxes a = some S)
    (hfree : ∀ t T, s.threads t = some T → ∀ x ∈ T.attachments, x.sandbox ≠ a) :
    Inv (s.destroy a S) := by
  have hback : ∀ b R, (s.destroy a S).sandboxes b = some R → b ≠ a ∧ s.sandboxes b = some R :=
    fun b R hR => of_update_none hR
  have hctxs : ∀ c, c ≠ S.mainCtx → (s.destroy a S).ctxs c = s.ctxs c :=
    fun c hne => Function.update_of_ne hne _ _
  have hfreed : (s.destroy a S).ctxs S.mainCtx = none := Function.update_self ..
  refine ⟨hinv.counter_pos, ?_, ?_, ?_, ?_, ?_, ?_, ?_, ?_⟩
  · exact hinv.tids
  · exact fun _ _ _ _ h₁ h₂ => hinv.ids _ _ _ _ (hback _ _ h₁).2 (hback _ _ h₂).2
  · intro c p hc
    rcases eq_or_ne c S.mainCtx with rfl | hne
    · rw [hfreed] at hc
      cases hc
    · exact hinv.ctxs_lt c p ((hctxs c hne).symm.trans hc)
  · intro t' U hU
    have hok := hinv.thread t' U hU
    refine ⟨hok.lastId, ?_, hok.cleaned, hok.procs, hok.ctxs, ?_⟩
    · intro x hx
      obtain ⟨hid, R, hR⟩ := hok.attachments x hx
      exact ⟨hid, R, (Function.update_of_ne (hfree t' U hU x hx) _ _).trans hR⟩
    · intro x hx
      rw [hctxs _ (hinv.attached_ne_main _ _ _ _ _ _ hU ha hx).symm]
      exact hok.live x hx
  · intro b R hb
    obtain ⟨hne, hb⟩ := hback _ _ hb
    have hok := hinv.sandbox b R hb
    refine ⟨hok.id_pos, hok.id_lt, ?_, hok.node_lt, hok.node_inj, hok.main, hok.owner⟩
    have hctx : R.mainCtx ≠ S.mainCtx := by
      intro hsame
      have hid := hok.mainCtx
      rw [hsame, (hinv.sandbox a S ha).mainCtx] at hid
      exact hne (hinv.ids _ _ _ _ hb ha (Option.some.inj hid).symm)
    rw [hctxs _ hctx, hok.mainCtx]
  · intro t' U b R hU hb
    obtain ⟨-, hb⟩ := hback _ _ hb
    refine (hinv.pair t' U b R hU hb).congr (.refl R (U.tid + 1)) (Nat.succ_ne_self _).symm
      (fun c _ hc => ?_) (Nat.le_refl _)
    rcases eq_or_ne c S.mainCtx with rfl | hne
    · exact hfreed
    · exact (hctxs c hne).trans hc
  · exact hinv.attached_excl
  · exact fun _ _ _ _ _ _ hU hb => hinv.attached_ne_main _ _ _ _ _ _ hU (hback _ _ hb).2

theorem step_inv {l : Label} (hinv : Inv s) (hok : Ok s l) (hstep : Step s l s') : Inv s' := by
  cases hstep with
  | spawn hfree hid => exact spawn_inv hinv hfree hid
  | create ht hcall hfree => exact create_inv hinv hfree
  | access acc ht hcall ha => exact access_inv acc hinv ht ha hcall (hok.2 _ _ ht ha)
  | detach ht hrun ha => exact detach_inv hinv ht ha hrun
  | detached ht hrun ha => exact detached_inv hinv ht ha hrun
  | exit ht hrun =>
      exact setPhase_inv hinv ht (by simp [hrun, Phase.exiting]) (by simp [hrun])
        (fun _ h => by cases h) (fun h => by cases h)
  | cleanup ht hclean hx ha => exact cleanup_inv hinv ht hclean hx ha
  | cleaned ht hclean hx =>
      exact setPhase_inv hinv ht (fun _ => trivial) (by simp [hclean])
        (fun _ h => by cases h) (fun _ => hx)
  | freeCtx ht hclean hx => exact freeCtx_inv hinv ht hclean hx
  | gone ht hclean hx => exact gone_inv hinv ht hclean
  | destroy ht hcall ha =>
      rename_i t _ _ S
      refine destroy_inv hinv ha (fun t' U hU => ?_)
      rcases eq_or_ne t' t with rfl | hne
      · exact hok.2 U hU
      · exact (hok.1 S ha t' U hne hU).2

theorem reaches_inv (h : Reaches Step Ok State.init s) : Inv s :=
  h.invariant inv_init (fun _ _ _ => step_inv)

end LfiRuntime.ThreadCtx
