import LfiRuntime.Sbox.ThreadCtxRuns

/-!
What `get_thread_ctx` returns: the slot of the thread that calls it, with a
context that no other thread uses.
-/

namespace LfiRuntime.ThreadCtx

open LfiRuntime.Runs

variable {s s' : State} {t a : Nat} {S : Sandbox} {T T' : Thread} {slot : Slot}

/-- The thread may come to use `c`: it is attached to it or has it in a slot. -/
def Uses (s : State) (T : Thread) (c : Nat) : Prop :=
  (∃ p, (p, c) ∈ T.attachedCtxs) ∨ ∃ a S slot, s.sandboxes a = some S ∧
    S.threadCtxs T.tid = some slot ∧ slot.ctx = some c

/-- What `get_thread_ctx` owes to the thread `T`, which is `t`, on the sandbox
`S` at `a`. -/
structure OwnSlot (s : State) (t a : Nat) (S : Sandbox) (T : Thread) : Prop where
  fast_eq_slow : (getThreadCtx s.nextNode a S T).ctxp = (lookupThreadCtx s.nextNode a S T).ctxp
  live : ∃ slot, (getThreadCtx s.nextNode a S T).sandbox.threadCtxs T.tid = some slot ∧
    (getThreadCtx s.nextNode a S T).ctxp = some slot.node ∧
    (∀ id' slot', (getThreadCtx s.nextNode a S T).sandbox.threadCtxs id' = some slot' →
      slot'.node = slot.node → id' = T.tid) ∧
    ∀ c, slot.ctx = some c → s.ctxs c = some S.id ∧
      ∀ t' U, s.threads t' = some U → t' ≠ t → ¬Uses s U c
  alone : ∀ t' U, s.threads t' = some U → U.tid = T.tid → t' = t

/-- Where a context in the slot of a thread comes from. -/
theorem Inv.slot_ctx (hinv : Inv s) (ht : s.threads t = some T) (ha : s.sandboxes a = some S)
    (hslot : S.threadCtxs T.tid = some slot) {c : Nat} (hc : slot.ctx = some c) :
    (S.mainThreadTid = T.tid ∧ c = S.mainCtx) ∨ (S.id, c) ∈ T.attachedCtxs ∨
      s.ctxs c = none := by
  have hpair := hinv.pair t T a S ht ha
  rcases eq_or_ne S.mainThreadTid T.tid with hmain | hmain
  · rw [(hpair.main hmain).1 slot hslot] at hc
    exact .inl ⟨hmain, (Option.some.inj hc).symm⟩
  · rcases eq_or_ne T.phase (.detaching a) with hphase | hphase
    · exact .inr (.inr ((hpair.freed hmain hphase).2 slot hslot c hc).1)
    · exact .inr (.inl (hpair.attached hmain hphase slot hslot c hc))

/-- The context of `main_thread_` is used by the thread with its id. -/
theorem Inv.main_excl (hinv : Inv s) (ht : s.threads t = some T) (ha : s.sandboxes a = some S)
    (hmain : S.mainThreadTid = T.tid) {t' : Nat} {U : Thread} (hU : s.threads t' = some U)
    (hne : t' ≠ t) : ¬Uses s U S.mainCtx := by
  have hlive := (hinv.sandbox a S ha).mainCtx
  rintro (⟨p, hp⟩ | ⟨b, R, slot, hb, hslot, hc⟩)
  · exact hinv.attached_ne_main _ _ _ _ _ _ hU ha hp rfl
  · rcases hinv.slot_ctx hU hb hslot hc with ⟨hR, hsame⟩ | hattached | hnone
    · have hid := (hinv.sandbox b R hb).mainCtx
      rw [← hsame, hlive] at hid
      have hab : a = b := hinv.ids _ _ _ _ ha hb (Option.some.inj hid)
      subst hab
      rw [ha] at hb
      cases hb
      exact hne (hinv.tids _ _ _ _ hU ht (hR.symm.trans hmain))
    · exact hinv.attached_ne_main _ _ _ _ _ _ hU ha hattached rfl
    · rw [hlive] at hnone
      cases hnone

/-- A context from `lfi_clone` is used by the thread that it was made for. -/
theorem Inv.attached_only (hinv : Inv s) (ht : s.threads t = some T) {p c : Nat}
    (hc : (p, c) ∈ T.attachedCtxs) {t' : Nat} {U : Thread} (hU : s.threads t' = some U)
    (hne : t' ≠ t) : ¬Uses s U c := by
  have hlive := (hinv.thread t T ht).live _ hc
  rintro (⟨q, hq⟩ | ⟨b, R, slot, hb, hslot, hctx⟩)
  · exact hne (hinv.attached_excl _ _ _ _ _ _ _ hU ht hq hc)
  · rcases hinv.slot_ctx hU hb hslot hctx with ⟨-, rfl⟩ | hattached | hnone
    · exact hinv.attached_ne_main _ _ _ _ _ _ ht hb hc rfl
    · exact hne (hinv.attached_excl _ _ _ _ _ _ _ hU ht hattached hc)
    · rw [hlive] at hnone
      cases hnone

theorem Inv.ownSlot (hinv : Inv s) (ht : s.threads t = some T) (ha : s.sandboxes a = some S)
    (hcall : T.phase.mayCall) (hclean : T.phase = .cleaned → S.mainThreadTid = T.tid) :
    OwnSlot s t a S T := by
  have hpair := hinv.pair t T a S ht ha
  obtain ⟨slot, T', hget, hgets⟩ := getThreadCtx_spec hpair hcall hclean
  obtain ⟨slow, T₂, hslow, hgets₂⟩ := lookupThreadCtx_spec s a S T
  have hsame : slow = slot := by
    rcases hgets.found with hfound | ⟨hnone, rfl⟩ <;>
      rcases hgets₂.found with hfound₂ | ⟨hnone₂, rfl⟩
    · exact Option.some.inj (hfound₂.symm.trans hfound)
    · cases hnone₂.symm.trans hfound
    · cases hnone.symm.trans hfound₂
    · rfl
  have hinv' := hgets.got_inv hinv ht ha hcall hclean
  have hS' := hinv'.sandbox a (S.setSlot T.tid (some slot)) (Function.update_self ..)
  refine ⟨by rw [hget, hslow, hsame], ?_, fun t' U hU htid => hinv.tids _ _ _ _ hU ht htid⟩
  rw [hget]
  refine ⟨slot, S.setSlot_self .., rfl, ?_, ?_⟩
  · intro id' slot' hslot' hnode
    exact hS'.node_inj _ _ _ _ hslot' (S.setSlot_self ..) hnode
  · intro c hc
    rcases eq_or_ne S.mainThreadTid T.tid with hmain | hmain
    · rw [hgets.ctx_main hpair hmain] at hc
      cases hc
      exact ⟨(hinv.sandbox a S ha).mainCtx, fun t' U hU hne => hinv.main_excl ht ha hmain hU hne⟩
    · have hattached := hgets.ctx_attached hpair hcall hmain hc
      exact ⟨(hinv.thread t T ht).live _ hattached,
        fun t' U hU hne => hinv.attached_only ht hattached hU hne⟩

/-- In every run whose steps meet the condition, `get_thread_ctx` returns the
live slot of the thread, the same on both paths, and no other thread uses the
context in it. -/
theorem getThreadCtx_ownSlot {acc : Access} (h : Reaches Step Ok State.init s)
    (hstep : Step s (.access t a acc) s') (hok : Ok s (.access t a acc)) :
    ∃ S T, s.sandboxes a = some S ∧ s.threads t = some T ∧ OwnSlot s t a S T := by
  cases hstep with
  | access _ ht hcall ha =>
      exact ⟨_, _, ha, ht, (reaches_inv h).ownSlot ht ha hcall (hok.2 _ _ ht ha)⟩

/-! A thread that attaches and exits, and one that attaches and destroys. -/

/-- The thread 0 has created a sandbox at 5, and the thread 1 has done nothing. -/
def idleWorker : State :=
  ((State.init.setThread 0 (some (.start 10))).create 5 10).setThread 1 (some (.start 11))

/-- The thread 1 has called into it. -/
def attachedWorker : State :=
  idleWorker.access 1 5 ⟨1, 10, 0, fun _ => none⟩ (.start 11) .obtain

theorem idleWorker_reaches : Reaches Step Ok State.init idleWorker := by
  have hmain : Reaches Step Ok State.init (State.init.setThread 0 (some (.start 10))) :=
    (Reaches.refl _).tail (l := Label.spawn 0 10) ⟨trivial, trivial⟩ (.spawn rfl nofun)
  have hcreate := hmain.tail (l := Label.create 0 5) ⟨trivial, trivial⟩ (.create rfl trivial rfl)
  refine hcreate.tail (l := Label.spawn 1 11) ⟨trivial, trivial⟩ (.spawn rfl ?_)
  intro t' T' hT'
  rcases update_some_cases hT' with ⟨-, rfl⟩ | ⟨-, hT'⟩
  · decide
  · cases hT'

theorem attachedWorker_reaches : Reaches Step Ok State.init attachedWorker := by
  refine idleWorker_reaches.tail (l := Label.access 1 5 .obtain) ⟨trivial, ?_⟩
    (.access .obtain rfl trivial rfl)
  intro T S hT hS hclean
  cases hT
  cases hclean

theorem attachedWorker_threads (h : attachedWorker.threads t = some T) : t = 0 ∨ t = 1 := by
  rcases update_some_cases h with ⟨rfl, -⟩ | ⟨-, h⟩
  · exact .inr rfl
  · rcases update_some_cases h with ⟨rfl, -⟩ | ⟨-, h⟩
    · exact .inr rfl
    · rcases update_some_cases h with ⟨rfl, -⟩ | ⟨-, h⟩
      · exact .inl rfl
      · cases h

/-- A second call on the thread 1 finds its slot. -/
theorem attachedWorker_ownSlot :
    ∃ S T, attachedWorker.sandboxes 5 = some S ∧ attachedWorker.threads 1 = some T ∧
      OwnSlot attachedWorker 1 5 S T := by
  refine getThreadCtx_ownSlot attachedWorker_reaches (.access .get rfl trivial rfl) ⟨trivial, ?_⟩
  intro T S hT hS hclean
  cases hT
  cases hclean

/-- The thread 1 exits, and `thread_destructor` has not released its context yet. -/
theorem exitedWorker_not_ownSlot : ∃ s S T, Reaches Step OthersDetached State.init s ∧
    s.sandboxes 5 = some S ∧ s.threads 1 = some T ∧ T.phase.mayCall ∧ ¬OwnSlot s 1 5 S T := by
  have hattached : Reaches Step OthersDetached State.init attachedWorker :=
    attachedWorker_reaches.mono (fun _ _ h => h.1)
  have hexit := hattached.tail (l := Label.exit 1) trivial (.exit rfl rfl)
  have hcleanup := hexit.tail (l := Label.cleanup 1) trivial (.cleanup rfl rfl rfl rfl)
  have hcleaned := hcleanup.tail (l := Label.cleaned 1) trivial (.cleaned rfl rfl rfl)
  refine ⟨_, _, _, hcleaned, rfl, rfl, trivial, ?_⟩
  rintro ⟨-, ⟨slot, hslot, -⟩, -⟩
  cases hslot

/-- The thread 0 exits, the thread 1 destroys the sandbox that it is attached to
and exits: `~ThreadCleanup` is about to lock a sandbox that is gone. -/
theorem destroyer_dangles : ∃ s T x, Reaches Step OthersDetached State.init s ∧
    s.threads 1 = some T ∧ T.phase = .cleaning ∧ x ∈ T.attachments ∧
      s.sandboxes x.sandbox = none := by
  have hattached : Reaches Step OthersDetached State.init attachedWorker :=
    attachedWorker_reaches.mono (fun _ _ h => h.1)
  have hexit := hattached.tail (l := Label.exit 0) trivial (.exit rfl rfl)
  have hcleaned := hexit.tail (l := Label.cleaned 0) trivial (.cleaned rfl rfl rfl)
  have hgone := hcleaned.tail (l := Label.gone 0) trivial (.gone rfl rfl rfl)
  have hdestroy := hgone.tail (l := Label.destroy 1 5) (by
    intro S hS t' T' hne hT'
    obtain ⟨hne₀, hT'⟩ := of_update_none hT'
    have hold := (update_some_cases hT').resolve_left (fun h => hne₀ h.1)
    have hold := (update_some_cases hold.2).resolve_left (fun h => hne₀ h.1)
    rcases attachedWorker_threads hold.2 with rfl | rfl
    · exact absurd rfl hne₀
    · exact absurd rfl hne) (.destroy rfl trivial rfl)
  have hexit₁ := hdestroy.tail (l := Label.exit 1) trivial (.exit rfl rfl)
  exact ⟨_, _, ⟨5, 11⟩, hexit₁, rfl, rfl, List.mem_cons_self .., rfl⟩

end LfiRuntime.ThreadCtx
