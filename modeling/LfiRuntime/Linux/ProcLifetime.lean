import LfiRuntime.Linux.ThreadCounts

/-!
The end of a process. `attached_threads`, `active_threads` and both locks are the
totals of what the threads contribute, so that whoever destroys the process
finds both counters at zero and nobody in between.
-/

namespace LfiRuntime.ProcThreads

open LfiRuntime.Interleaving
open LfiRuntime.Runs

/-! What holds in every state of a run. -/

/-- The shared fields are the totals of what the threads contribute. Where every
attach clones once, no `LFILinuxThread` is lost. -/
structure Counts (clonesOnce : Prop) (s : State) : Prop where
  attached : s.sh.attachedThreads = total Pc.attached s.threads
  active : s.sh.activeThreads = total Pc.active s.threads
  procLock : total Pc.procLock s.threads + s.sh.free.procLock = s.sh.lkProc.toNat
  threadsLock : total Pc.threadsLock s.threads + s.sh.free.threadsLock = s.sh.lkThreads.toNat
  asleep : s.sh.condThreads.sleepers + s.sh.condThreads.wakeups =
    total Pc.asleep s.threads + s.sh.free.asleep
  late : s.sh.free ≠ .idle → total Pc.early s.threads = 0
  lists : ∀ o, s.sh.threads.count o ≤ total (Pc.lists o) s.threads
  owns : ∀ o, s.sh.frees o + total (Pc.owns o) s.threads + procOwns s.sh.cloneCtx o s.sh.destroys ≤
    live o s.sh.allocs
  owned : clonesOnce → ∀ o,
    s.sh.frees o + total (Pc.owns o) s.threads + procOwns s.sh.cloneCtx o s.sh.destroys =
      live o s.sh.allocs

/-- The call of `lfi_proc_free` or the last detach destroys the process, whichever
comes last, with both counters at zero and both locks free. -/
structure Ending (s : State) : Prop where
  pending : s.sh.pendingFree = true → s.sh.free.defers = true
  unlocking : s.sh.free = .unlock false → s.sh.pendingFree = true
  finishing : total Pc.finishing s.threads + s.sh.destroys =
    if s.sh.pendingFree = true then (if s.sh.attachedThreads = 0 then 1 else 0)
    else s.sh.free.isDone
  unpended : s.sh.pendingFree = false → total Pc.finishing s.threads = 0
  deciding : s.sh.free = .decide → s.sh.attachedThreads = 0 →
    s.sh.activeThreads = 0 ∧ s.sh.lkThreads = false
  waiting : 0 < total Pc.waiting s.threads + s.sh.destroys + s.sh.free.unlocked →
    s.sh.attachedThreads = 0 ∧ s.sh.lkProc = false
  destroying : 0 < total Pc.destroying s.threads + s.sh.destroys + s.sh.free.destroying →
    s.sh.attachedThreads = 0 ∧ s.sh.activeThreads = 0 ∧ s.sh.lkThreads = false

structure Inv (clonesOnce : Prop) (s : State) : Prop where
  counts : Counts clonesOnce s
  ending : Ending s

theorem waiting_le (pc : Pc) : pc.waiting ≤ pc.finishing := by
  cases pc <;> simp

theorem destroying_le (pc : Pc) : pc.destroying ≤ pc.waiting := by
  cases pc <;> simp

theorem ownsId_le (n : Option ThreadId) (o : ThreadId) : ownsId n o ≤ 1 := by
  rw [ownsId]
  split <;> omega

theorem site_lists_le (o : ThreadId) (c : Site) : c.lists o ≤ c.isActive := by
  cases c <;> simp [ownsId_le]

theorem lists_le (o : ThreadId) (pc : Pc) : pc.lists o ≤ pc.active := by
  cases pc with
  | inBox c call =>
      have hc := site_lists_le o c
      rcases call with _ | ⟨p, s⟩
      · exact hc
      · exact Nat.add_le_add hc 
          (Nat.le_trans (Nat.mul_le_mul_left _ (ownsId_le _ o)) (Nat.le_of_eq (Nat.mul_one _)))
  | exitRemove c => exact site_lists_le o c
  | exitUnlock c => exact site_lists_le o c
  | returned c => exact site_lists_le o c
  | tail p => exact ownsId_le _ o
  | _ => exact Nat.le_refl 0

theorem FreePc.destroying_of_defers {f : FreePc} (h : f.defers = true) : f.destroying = 0 := by
  cases f with
  | unlock d => cases d <;> simp_all
  | _ => simp_all

theorem FreePc.isDone_of_destroying {f : FreePc} (h : 0 < f.destroying) : f.isDone = 0 := by
  cases f <;> simp_all

section

variable {s : State} {clonesOnce : Prop}

theorem destroying_le_finishing (ts : List Pc) :
    total Pc.waiting ts ≤ total Pc.finishing ts ∧ total Pc.destroying ts ≤ total Pc.waiting ts :=
  ⟨total_le_total waiting_le, total_le_total destroying_le⟩

/-- At most one thread is going to destroy the process, and then the call of
`lfi_proc_free` is not. -/
theorem Ending.unique (h : Ending s) (hpos : 0 < total Pc.finishing s.threads) :
    total Pc.finishing s.threads + s.sh.destroys = 1 ∧ s.sh.free.destroying = 0 := by
  have hfinishing := h.finishing
  cases hp : s.sh.pendingFree with
  | true =>
      rw [hp, if_pos rfl] at hfinishing
      refine ⟨?_, FreePc.destroying_of_defers (h.pending hp)⟩
      split_ifs at hfinishing <;> omega
  | false =>
      have := h.unpended hp
      omega

/-- Nothing of the end has happened before `lfi_proc_free` is called. -/
theorem Ending.idle (h : Ending s) (hfree : s.sh.free = .idle) :
    s.sh.pendingFree = false ∧ total Pc.finishing s.threads = 0 ∧ s.sh.destroys = 0 := by
  have hnot : s.sh.pendingFree = false := by simpa [hfree] using h.pending
  have hfinishing := h.finishing
  rw [hfree, hnot, if_neg Bool.false_ne_true] at hfinishing
  simp only [FreePc.isDone] at hfinishing
  exact ⟨hnot, h.unpended hnot, by omega⟩

theorem ending_of_uncalled (hfree : s.sh.free = .idle ∨ s.sh.free = .lockProc)
    (hpending : s.sh.pendingFree = false) (hfinishing : total Pc.finishing s.threads = 0)
    (hdestroys : s.sh.destroys = 0) : Ending s := by
  obtain ⟨hle₁, hle₂⟩ := destroying_le_finishing s.threads
  have hwaiting : total Pc.waiting s.threads = 0 := by omega
  have hdestroying : total Pc.destroying s.threads = 0 := by omega
  rcases hfree with hfree | hfree <;> constructor <;> simp [*]

theorem Ending.called (h : Ending s)
    (hpos : 0 < total Pc.destroying s.threads + s.sh.destroys + s.sh.free.destroying) :
    s.sh.free ≠ .idle := by
  intro hidle
  obtain ⟨-, hfinishing, hdestroys⟩ := h.idle hidle
  obtain ⟨hle₁, hle₂⟩ := destroying_le_finishing s.threads
  rw [hidle] at hpos
  simp only [FreePc.destroying] at hpos
  omega

/-- A call of `lfi_proc_free` that is going to destroy the process is the first
to do so. -/
theorem Ending.first (h : Ending s) (hpos : 0 < s.sh.free.destroying) :
    s.sh.pendingFree = false ∧ total Pc.finishing s.threads = 0 ∧ s.sh.destroys = 0 := by
  have hfinishing := h.finishing
  cases hp : s.sh.pendingFree with
  | true =>
      have := FreePc.destroying_of_defers (h.pending hp)
      omega
  | false =>
      have hnone := h.unpended hp
      have hdone : s.sh.free.isDone = 0 := FreePc.isDone_of_destroying hpos
      simp only [hp, Bool.false_eq_true, if_false] at hfinishing
      exact ⟨rfl, hnone, by omega⟩

theorem FreePc.defers_of_isDone {f : FreePc} (h : 0 < f.isDone) : f.defers = true := by
  cases f <;> simp_all

/-- Once the process is destroyed, no thread is going to destroy it and the call
of `lfi_proc_free` is past its last use of it. -/
theorem Ending.destroyed (h : Ending s) (hdestroys : 0 < s.sh.destroys) :
    total Pc.finishing s.threads = 0 ∧ s.sh.free.defers = true := by
  have hfinishing := h.finishing
  have hunique := h.unique
  refine ⟨by omega, ?_⟩
  cases hp : s.sh.pendingFree with
  | true => exact h.pending hp
  | false =>
      rw [hp, if_neg Bool.false_ne_true] at hfinishing
      exact FreePc.defers_of_isDone (by omega)

/-- No thread is listed where the process is about to be destroyed. -/
theorem Inv.threads_eq_nil (h : Inv clonesOnce s)
    (hpos : 0 < total Pc.destroying s.threads + s.sh.destroys + s.sh.free.destroying) :
    s.sh.threads = [] := by
  obtain ⟨-, hactive, -⟩ := h.ending.destroying hpos
  have hzero : total Pc.active s.threads = 0 := by
    have := h.counts.active
    omega
  refine List.eq_nil_iff_forall_not_mem.mpr fun o ho => ?_
  have hcount := h.counts.lists o
  have hle : total (Pc.lists o) s.threads ≤ total Pc.active s.threads := total_le_total (lists_le o)
  have hcountpos := List.count_pos_iff.mpr ho
  omega

end

section

variable {sh sh' : Shared} {ts before after : List Pc} {pc pc' : Pc} {e : Event}
  {clonesOnce : Prop}

theorem Counts.thread (h : Inv clonesOnce ⟨sh, before ++ pc :: after⟩) (hact : Act sh pc e sh' pc')
    (hok : clonesOnce → ∀ o, e ≠ .fakeClone (some o)) :
    Counts clonesOnce ⟨sh', before ++ pc' :: after⟩ := by
  have hdestroyable : pc.destroying = 1 → sh.threads = [] ∧ sh.destroys = 0 := by
    intro hpc
    have hle₁ := waiting_le pc
    have hle₂ := destroying_le pc
    have hempty := h.threads_eq_nil
    have hunique := h.ending.unique
    simp only [total_append, total_cons] at hempty hunique
    exact ⟨hempty (by omega), by omega⟩
  obtain ⟨hattached, hactive, hproc, hthreads, hasleep, hlate, hlists, howns, howned⟩ := h.counts
  simp only [total_append, total_cons] at *
  obtain ⟨hfree, -, hctx⟩ := free_act hact
  constructor <;> simp only [total_append, total_cons, hfree]
  · have := attached_act hact
    omega
  · have := active_act hact
    omega
  · have := procLock_act hact (by omega)
    omega
  · have := threadsLock_act hact (by omega)
    omega
  · have := asleep_act hact
    omega
  · intro hne
    have := hlate hne
    have := early_act hact
    omega
  · intro o
    have := lists_act hact o (total (Pc.lists o) before + total (Pc.lists o) after)
      (by have := hlists o; omega)
    omega
  · intro o
    have := howns o
    have := (owns_act hact o hdestroyable).1
    omega
  · intro hclones o
    have := howned hclones o
    have := (owns_act hact o hdestroyable).2 (hok hclones)
    omega

theorem Ending.thread (h : Inv clonesOnce ⟨sh, before ++ pc :: after⟩) (hact : Act sh pc e sh' pc') :
    Ending ⟨sh', before ++ pc' :: after⟩ := by
  have hunique := h.ending.unique
  have hcalled := h.ending.called
  obtain ⟨hattached, hactive, hproc, -, -, hlate, -, -, -⟩ := h.counts
  obtain ⟨hpending, hunlocking, hfinishing, hunpended, hdeciding, hwaiting, hdestroying⟩ := h.ending
  simp only [total_append, total_cons] at *
  obtain ⟨hfree, hpend, -⟩ := free_act hact
  have hearly : sh.free ≠ .idle → pc.early = 0 := fun hne => by
    have := hlate hne
    omega
  have hattached' := attached_act hact
  have hdown := attachedThreads_act hact
  have hfinishing' := finishing_act hact fun hp => hearly fun hidle => by
    have := hpending hp
    rw [hidle] at this
    cases this
  have hlepc := waiting_le pc
  constructor <;> simp only [total_append, total_cons, hfree, hpend]
  · exact hpending
  · exact hunlocking
  · cases hp : sh.pendingFree with
    | true =>
        simp only [hp, true_and, if_true] at hfinishing hfinishing' ⊢
        split_ifs at * <;> omega
    | false =>
        simp only [hp, Bool.false_eq_true, false_and, if_false] at hfinishing hfinishing' ⊢
        omega
  · intro hp
    have := hunpended hp
    have := destroys_act hact
    simp only [hp, Bool.false_eq_true, false_and, if_false] at hfinishing'
    omega
  · -- the last detach waits for `lk_proc`, which `lfi_proc_free` holds
    intro hd hz
    rw [hd] at hproc hearly hpending
    have hlk := sh.lkProc.toNat_le
    have hearly := hearly (by simp)
    have hnone := hunpended (by simpa using hpending)
    simp only [FreePc.procLock] at hproc
    obtain ⟨hzero, hlk⟩ := hdeciding hd (by omega)
    obtain ⟨hact₁, hact₂⟩ := late_act hact (isLate_of_uncounted (by omega) (by omega) hearly)
    refine ⟨by omega, ?_⟩
    rcases hact₂ with hl | hl | hl
    · exact hl
    · rw [hl, hlk]
    · omega
  · intro hw
    rcases waiting_act hact with heq | ⟨hfin, hlk, heq⟩
    · obtain ⟨hz, hlk⟩ := hwaiting (by omega)
      refine ⟨by omega, ?_⟩
      rcases lkProc_act hact with hl | hl | hl
      · exact hl
      · rw [hl, hlk]
      · omega
    · refine ⟨?_, hlk⟩
      cases hp : sh.pendingFree with
      | true =>
          simp only [hp, if_true] at hfinishing
          split_ifs at hfinishing <;> omega
      | false =>
          have := hunpended hp
          omega
  · intro hd
    rcases destroying_act hact with heq | ⟨hwait, hlk, hz⟩
    · have hbefore : 0 < total Pc.destroying before + (pc.destroying + total Pc.destroying after) +
          sh.destroys + sh.free.destroying := by omega
      obtain ⟨hz, hzero, hlk⟩ := hdestroying hbefore
      have hearly := hearly (hcalled hbefore)
      obtain ⟨hact₁, hact₂⟩ := late_act hact (isLate_of_uncounted (by omega) (by omega) hearly)
      refine ⟨by omega, by omega, ?_⟩
      rcases hact₂ with hl | hl | ⟨hwait, hnot⟩
      · exact hl
      · rw [hl, hlk]
      · -- another thread would finish too
        obtain ⟨hle₁, hle₂⟩ := destroying_le_finishing before
        obtain ⟨hle₃, hle₄⟩ := destroying_le_finishing after
        obtain ⟨hone, hnone⟩ := hunique (by omega)
        omega
    · obtain ⟨hz', -⟩ := hwaiting (by omega)
      exact ⟨by omega, hz, hlk⟩

theorem Counts.free {f : FreePc} (h : Inv clonesOnce ⟨sh, ts⟩) (hact : FreeAct sh sh.free e sh' f) :
    Counts clonesOnce ⟨{ sh' with free := f }, ts⟩ := by
  have hempty := h.threads_eq_nil
  have hfirst := h.ending.first
  obtain ⟨hattached, hactive, hproc, hthreads, hasleep, hlate, hlists, howns, howned⟩ := h.counts
  simp only at *
  obtain ⟨h₁, h₂, h₃, h₄, -⟩ := frame_free hact
  have hdestroyable : 0 < sh.free.destroying → sh.threads = [] ∧ sh.destroys = 0 := fun hpos =>
    ⟨hempty (by omega), (hfirst hpos).2.2⟩
  have howns' := fun o => owns_free hact o hdestroyable
  constructor <;> simp only
  · omega
  · omega
  · have := procLock_free hact (by omega)
    omega
  · have := threadsLock_free hact (by omega)
    omega
  · have := asleep_free hact
    omega
  · intro _
    refine hlate fun hidle => ?_
    rw [hidle] at hact
    cases hact
  · rw [h₃]
    exact hlists
  · intro o
    have := howns o
    have := howns' o
    rw [h₄]
    omega
  · intro hclones o
    have := howned hclones o
    have := howns' o
    rw [h₄]
    omega

theorem Ending.free {f : FreePc} (h : Inv clonesOnce ⟨sh, ts⟩) (hact : FreeAct sh sh.free e sh' f) :
    Ending ⟨{ sh' with free := f }, ts⟩ := by
  obtain ⟨hle₁, hle₂⟩ := destroying_le_finishing ts
  have hle : total Pc.finishing ts = 0 → total Pc.waiting ts = 0 ∧ total Pc.destroying ts = 0 := by
    omega
  obtain ⟨hattached, -, -, -, -, -, -, -, -⟩ := h.counts
  obtain ⟨hpending, hunlocking, hfinishing, hunpended, hdeciding, hwaiting, hdestroying⟩ := h.ending
  simp only at *
  generalize sh.free = f₀ at hact hpending hunlocking hfinishing hdeciding hwaiting hdestroying
  clear h hle₁ hle₂
  cases hact with
  | lockProc hlk => constructor <;> simp_all
  | wait hwait => cases hwait <;> constructor <;> simp_all
  | pass hactive => constructor <;> simp_all
  | defer hpos => constructor <;> simp_all; omega
  | proceed hnot => constructor <;> simp_all
  | unlock d => cases d <;> constructor <;> simp_all
  | destroy => rw [procDestroy_eq]; constructor <;> simp_all
  | ret => constructor <;> simp_all

/-- A thread that is created takes over from its creator what it counts for. -/
theorem Inv.create {c : Site} {o : ThreadId}
    (h : Inv clonesOnce ⟨sh, before ++ .inBox c (some (o, .create)) :: after⟩) :
    Inv clonesOnce
      ⟨sh, before ++ .inBox c (some (o, .started)) :: after ++ [.inBox (.running o) none]⟩ := by
  have ht : ∀ f : Pc → Nat, f (.inBox c (some (o, .create))) =
      f (.inBox c (some (o, .started))) + f (.inBox (.running o) none) →
      total f (before ++ .inBox c (some (o, .started)) :: after ++ [.inBox (.running o) none]) =
        total f (before ++ .inBox c (some (o, .create)) :: after) := by
    intro f hf
    simp only [total_append, total_cons, total_nil, hf]
    omega
  have hlists : ∀ p, total (Pc.lists p)
      (before ++ .inBox c (some (o, .started)) :: after ++ [.inBox (.running o) none]) =
        total (Pc.lists p) (before ++ .inBox c (some (o, .create)) :: after) :=
    fun p => ht _ (by simp)
  have howns : ∀ p, total (Pc.owns p)
      (before ++ .inBox c (some (o, .started)) :: after ++ [.inBox (.running o) none]) =
        total (Pc.owns p) (before ++ .inBox c (some (o, .create)) :: after) :=
    fun p => ht _ rfl
  obtain ⟨hcounts, hending⟩ := h
  constructor
  · constructor <;> simp only [ht Pc.attached rfl, ht Pc.active rfl, ht Pc.procLock rfl,
      ht Pc.threadsLock rfl, ht Pc.asleep rfl, ht Pc.early rfl, hlists, howns]
    · exact hcounts.attached
    · exact hcounts.active
    · exact hcounts.procLock
    · exact hcounts.threadsLock
    · exact hcounts.asleep
    · exact hcounts.late
    · exact hcounts.lists
    · exact hcounts.owns
    · exact hcounts.owned
  · constructor <;> simp only [ht Pc.finishing rfl, ht Pc.waiting rfl, ht Pc.destroying rfl]
    · exact hending.pending
    · exact hending.unlocking
    · exact hending.finishing
    · exact hending.unpended
    · exact hending.deciding
    · exact hending.waiting
    · exact hending.destroying

theorem Inv.attach (h : Inv clonesOnce ⟨sh, ts⟩) (hfree : sh.free = .idle) :
    Inv clonesOnce
      ⟨{ sh with attachedThreads := sh.attachedThreads + 1 }, ts ++ [.cloneLock]⟩ := by
  obtain ⟨hpending, hfinishing, hdestroys⟩ := h.ending.idle hfree
  refine ⟨?_, ending_of_uncalled (.inl hfree) hpending (by simpa using hfinishing) hdestroys⟩
  obtain ⟨hattached, hactive, hproc, hthreads, hasleep, -, hlists, howns, howned⟩ := h.counts
  constructor <;> simp only [total_append, total_cons, total_nil]
  · simp only at hattached
    rw [hattached]
    rfl
  · exact hactive
  · exact hproc
  · exact hthreads
  · exact hasleep
  · exact fun hne => absurd hfree hne
  · exact hlists
  · exact howns
  · exact howned

theorem Inv.callFree (h : Inv clonesOnce ⟨sh, ts⟩) (hfree : sh.free = .idle)
    (hlate : ∀ pc ∈ ts, pc.early = 0) :
    Inv clonesOnce ⟨{ sh with free := .lockProc }, ts⟩ := by
  obtain ⟨hpending, hfinishing, hdestroys⟩ := h.ending.idle hfree
  refine ⟨?_, ending_of_uncalled (.inr rfl) hpending hfinishing hdestroys⟩
  obtain ⟨hattached, hactive, hproc, hthreads, hasleep, -, hlists, howns, howned⟩ := h.counts
  rw [hfree] at hproc hthreads hasleep
  exact ⟨hattached, hactive, hproc, hthreads, hasleep, fun _ => total_eq_zero_iff.mpr hlate,
    hlists, howns, howned⟩

theorem Inv.step {s t : State} (h : Inv clonesOnce s) (hok : clonesOnce → ClonesOnce s e)
    (hstep : Step s e t) : Inv clonesOnce t := by
  cases hstep with
  | thread before after hrun hact => exact ⟨.thread h hact hok, .thread h hact⟩
  | create before after c o hrun => exact h.create
  | attach ts hrun hfree => exact h.attach hfree
  | callFree ts hrun hfree hlate => exact h.callFree hfree hlate
  | free ts hrun hact => exact ⟨.free h hact, .free h hact⟩

end

theorem inv_start (clonesOnce : Prop) : Inv clonesOnce start := by
  have hlive : ∀ o, ownsId (some 0) o + ownsId (some 1) o = live o 2 := by
    intro o
    rw [live_succ, live_succ]
    simp [live]
  refine ⟨?_, ending_of_uncalled (.inl rfl) rfl rfl rfl⟩
  constructor <;> simp [start, procOwns, hlive]

theorem inv_of_reaches {s : State} (h : Reaches Step ClonesOnce start s) : Inv True s :=
  h.invariant (inv_start True) fun _ _ _ hs hok hstep => hs.step (fun _ => hok) hstep

namespace Inv

variable {clonesOnce : Prop} {s : State} (h : Inv clonesOnce s)

include h

theorem once : s.sh.destroys ≤ 1 := by
  have hfinishing := h.ending.finishing
  split_ifs at hfinishing
  · omega
  · omega
  · have : s.sh.free.isDone ≤ 1 := by cases s.sh.free <;> simp
    omega

theorem quiet {t : State} (hstep : Step s .destroy t) :
    s.sh.attachedThreads = 0 ∧ s.sh.activeThreads = 0 := by
  have hdestroying := h.ending.destroying
  cases hstep with
  | thread before after hrun hact =>
      cases hact with
      | detachDestroy =>
          simp only [total_append, total_cons, Pc.destroying] at hdestroying
          obtain ⟨hattached, hactive, -⟩ := hdestroying (by omega)
          exact ⟨hattached, hactive⟩
  | @free sh sh' _ f ts hrun hact =>
      simp only at hdestroying
      generalize sh.free = f₀ at hact hdestroying
      cases hact with
      | destroy =>
          obtain ⟨hattached, hactive, -⟩ := hdestroying (by simp)
          exact ⟨hattached, hactive⟩

/-- Once the process is destroyed, the threads and the call of `lfi_proc_free`
have nothing left to do but to return. -/
theorem last (hdestroys : 0 < s.sh.destroys) {e : Event} {t : State} (hstep : Step s e t) :
    e = .ret := by
  obtain ⟨hfinishing, hdefers⟩ := h.ending.destroyed hdestroys
  obtain ⟨hattached, hactive, hlkThreads⟩ := h.ending.destroying (by omega)
  obtain ⟨-, hlkProc⟩ := h.ending.waiting (by omega)
  have hcalled := h.ending.called (by omega)
  have hearly := h.counts.late hcalled
  have hcattached := h.counts.attached
  have hcactive := h.counts.active
  have hproc := h.counts.procLock
  have hthreads := h.counts.threadsLock
  rw [hlkProc, Bool.toNat_false] at hproc
  rw [hlkThreads, Bool.toNat_false] at hthreads
  cases hstep with
  | thread before after hrun hact =>
      simp only [total_append, total_cons] at *
      exact ret_act hact (isLate_of_uncounted (by omega) (by omega) (by omega)) (by omega)
        (by omega) (by omega)
  | create before after c o hrun =>
      simp only [total_append, total_cons, Pc.active, SpawnPc.counted] at *
      omega
  | attach ts hrun hfree => exact absurd hfree hcalled
  | callFree ts hrun hfree _ => exact absurd hfree hcalled
  | @free sh sh' _ f ts hrun hact =>
      simp only at hdefers hproc
      generalize sh.free = f₀ at hact hdefers hproc
      cases hact with
      | ret => rfl
      | unlock d =>
          simp only [FreePc.procLock] at hproc
          omega
      | _ => cases hdefers

theorem final (hfinal : Final s) :
    s.sh.destroys = 1 ∧ (clonesOnce → ∀ o < s.sh.allocs, s.sh.frees o = 1) := by
  obtain ⟨hfree, hdone⟩ := hfinal
  have hzero : ∀ f : Pc → Nat, f .mainFreed = 0 → f .detached = 0 → f .ended = 0 →
      total f s.threads = 0 := by
    intro f hm hd he
    refine total_eq_zero_iff.mpr fun pc hpc => ?_
    have := hdone pc hpc
    cases pc <;> simp_all [Pc.done]
  have hdestroys : s.sh.destroys = 1 := by
    have hfinishing := h.ending.finishing
    have hattached : s.sh.attachedThreads = 0 := by
      rw [h.counts.attached, hzero Pc.attached rfl rfl rfl]
      rfl
    rw [hzero Pc.finishing rfl rfl rfl, hfree, if_pos hattached] at hfinishing
    simpa using hfinishing
  refine ⟨hdestroys, fun hclones o ho => ?_⟩
  have howned := h.counts.owned hclones o
  rw [hzero (Pc.owns o) rfl rfl rfl, hdestroys, live, if_pos ho] at howned
  exact howned

theorem freedOnce (o : ThreadId) : s.sh.frees o ≤ 1 := by
  have howns := h.counts.owns o
  have hlive : live o s.sh.allocs ≤ 1 := by
    rw [live]
    split <;> omega
  omega

end Inv

/-- However often `thread_create` clones, the process is destroyed once, not too
early, and no `LFILinuxThread` is freed twice. -/
theorem process_destroyed_once_of_any_clones {s : State} (h : Reaches Step anyStep start s) :
    s.sh.destroys ≤ 1 ∧
      (∀ t, Step s .destroy t → s.sh.attachedThreads = 0 ∧ s.sh.activeThreads = 0) ∧
      (0 < s.sh.destroys → ∀ e t, Step s e t → e = .ret) ∧
      (∀ o, s.sh.frees o ≤ 1) ∧ (Final s → s.sh.destroys = 1) := by
  have hinv : Inv False s :=
    h.invariant (inv_start False) fun _ _ _ hs _ hstep => hs.step nofun hstep
  exact ⟨hinv.once, fun _ => hinv.quiet, fun hd _ _ => hinv.last hd, hinv.freedOnce,
    fun hf => (hinv.final hf).1⟩

theorem asleep_le (pc : Pc) : pc.asleep ≤ pc.finishing := by
  cases pc with
  | detachWait w => cases w <;> simp
  | _ => simp

theorem FreePc.asleep_of_defers {f : FreePc} (h : f.defers = true) : f.asleep = 0 := by
  cases f <;> simp_all

theorem FreePc.asleep_le (f : FreePc) : f.asleep ≤ 1 := by
  cases f with
  | wait w => cases w <;> simp
  | _ => simp

/-- At most one thread waits for `active_threads`. -/
theorem Inv.sleepers_le {clonesOnce : Prop} {s : State} (h : Inv clonesOnce s) :
    s.sh.condThreads.sleepers ≤ 1 := by
  have hasleep := h.counts.asleep
  have hle : total Pc.asleep s.threads ≤ total Pc.finishing s.threads := total_le_total asleep_le
  have hunique := h.ending.unique
  cases hp : s.sh.pendingFree with
  | true =>
      have := FreePc.asleep_of_defers (h.ending.pending hp)
      omega
  | false =>
      have := h.ending.unpended hp
      have := s.sh.free.asleep_le
      omega

/-- A thread sleeps unsignalled only while others run. -/
def Awake (s : State) : Prop := 0 < s.sh.condThreads.sleepers → s.sh.activeThreads ≠ 0

theorem Awake.step {clonesOnce : Prop} {s t : State} {e : Event} (h : Awake s)
    (hinv : Inv clonesOnce s) (hstep : Step s e t) : Awake t := by
  have hone := hinv.sleepers_le
  have hcount := hinv.counts.active
  rw [Awake] at h ⊢
  cases hstep with
  | thread before after hrun hact =>
      simp only at *
      rcases sleepers_act hact with ⟨heq, hle | hne⟩ | heq | heq <;> omega
  | create => exact h
  | attach => exact h
  | callFree => exact h
  | free ts hrun hact =>
      obtain ⟨-, heq, -⟩ := frame_free hact
      simp only at *
      rcases sleepers_free hact with hle | hne <;> omega

/-- No wake-up is lost: when no thread runs any more, every thread that waits for
that has a signal to wake from. -/
theorem wakeups_eq_asleep {s : State} (h : Reaches Step anyStep start s)
    (hactive : s.sh.activeThreads = 0) :
    s.sh.condThreads.wakeups = total Pc.asleep s.threads + s.sh.free.asleep := by
  have hkeep : ∀ s e t, Inv False s ∧ Awake s → anyStep s e → Step s e t →
      Inv False t ∧ Awake t := fun s e t hs _ hstep =>
    ⟨hs.1.step nofun hstep, hs.2.step hs.1 hstep⟩
  obtain ⟨hinv, hawake⟩ := h.invariant ⟨inv_start False, nofun⟩ hkeep
  have hasleep := hinv.counts.asleep
  rw [Awake] at hawake
  omega

/-- In every run where each attach clones once, the process is destroyed once,
not before the last thread is done with it, and every `LFILinuxThread` is freed
once. -/
theorem process_destroyed_once {s : State} (h : Reaches Step ClonesOnce start s) :
    Lifetimes s := by
  have hinv := inv_of_reaches h
  exact ⟨hinv.once, fun _ => hinv.quiet, fun hd _ _ => hinv.last hd, hinv.freedOnce,
    fun hf => ⟨(hinv.final hf).1, (hinv.final hf).2 trivial⟩⟩

theorem run_step {s t : State} {e : Event} (h : Reaches Step ClonesOnce start s)
    (hstep : Step s e t) (hok : ClonesOnce s e := by rintro _ ⟨⟩) : Reaches Step ClonesOnce start t :=
  h.tail hok hstep

/-- The run of a host thread that attaches before `lfi_proc_free` is called and
detaches afterwards. -/
theorem deferred_run : ∃ s, Reaches Step ClonesOnce start s ∧ Final s := by
  have h : Reaches Step ClonesOnce start start := .refl start
  have h := run_step h (.thread [] [] rfl (.leave _ rfl))
  have h := run_step h (.thread [] [] rfl (.freeMain _))
  have h := run_step h (.attach _ rfl rfl)
  have h := run_step h (.thread [.mainFreed] [] rfl (.cloneLock rfl))
  have h := run_step h (.thread [.mainFreed] [] rfl (.fakeClone none))
  have h := run_step h (.thread [.mainFreed] [] rfl (.leave _ rfl))
  have h := run_step h (.thread [.mainFreed] [] rfl (.fakeDone _ _))
  have h := run_step h (.thread [.mainFreed] [] rfl (.cloneUnlock _))
  have h := run_step h (.thread [.mainFreed] [] rfl (.attached _))
  have h := run_step h (.callFree _ rfl rfl (by simp))
  have h := run_step h (.free _ rfl (.lockProc rfl))
  have h := run_step h (.free _ rfl (.wait (.lock rfl)))
  have h := run_step h (.free _ rfl (.pass rfl))
  have h := run_step h (.free _ rfl (.defer (by decide)))
  have h := run_step h (.free _ rfl (.unlock _))
  have h := run_step h (.free _ rfl .ret)
  have h := run_step h (.thread [.mainFreed] [] rfl (.detach _))
  have h := run_step h (.thread [.mainFreed] [] rfl (.detachFree _))
  have h := run_step h (.thread [.mainFreed] [] rfl (.detachLock rfl))
  have h := run_step h (.thread [.mainFreed] [] rfl .detachDec)
  have h := run_step h (.thread [.mainFreed] [] rfl (.detachUnlock true))
  have h := run_step h (.thread [.mainFreed] [] rfl (.detachWait (.lock rfl)))
  have h := run_step h (.thread [.mainFreed] [] rfl (.detachPass rfl))
  have h := run_step h (.thread [.mainFreed] [] rfl .detachDestroy)
  have h := run_step h (.thread [.mainFreed] [] rfl .detachRet)
  exact ⟨_, h, rfl, by simp [Pc.done]⟩

theorem process_destroyed_once_deferred : ∃ s, Final s ∧ Lifetimes s := by
  obtain ⟨s, hrun, hfinal⟩ := deferred_run
  exact ⟨s, hfinal, process_destroyed_once hrun⟩

/-- A `thread_create` that clones twice: the attach keeps the second thread, and
nothing frees the first. -/
theorem lost_thread_run : ∃ s, Reaches Step anyStep start s ∧ ¬Lifetimes s := by
  have h : Reaches Step anyStep start start := .refl start
  have h := h.tail trivial (.thread [] [] rfl (.leave _ rfl))
  have h := h.tail trivial (.thread [] [] rfl (.freeMain _))
  have h := h.tail trivial (.attach _ rfl rfl)
  have h := h.tail trivial (.thread [.mainFreed] [] rfl (.cloneLock rfl))
  have h := h.tail trivial (.thread [.mainFreed] [] rfl (.fakeClone none))
  have h := h.tail trivial (.thread [.mainFreed] [] rfl (.leave _ rfl))
  have h := h.tail trivial (.thread [.mainFreed] [] rfl (.fakeDone _ _))
  have h := h.tail trivial (.thread [.mainFreed] [] rfl (.fakeClone (some 2)))
  have h := h.tail trivial (.thread [.mainFreed] [] rfl (.leave _ rfl))
  have h := h.tail trivial (.thread [.mainFreed] [] rfl (.fakeDone _ _))
  have h := h.tail trivial (.thread [.mainFreed] [] rfl (.cloneUnlock _))
  have h := h.tail trivial (.thread [.mainFreed] [] rfl (.attached _))
  have h := h.tail trivial (.thread [.mainFreed] [] rfl (.detach _))
  have h := h.tail trivial (.thread [.mainFreed] [] rfl (.detachFree _))
  have h := h.tail trivial (.thread [.mainFreed] [] rfl (.detachLock rfl))
  have h := h.tail trivial (.thread [.mainFreed] [] rfl .detachDec)
  have h := h.tail trivial (.thread [.mainFreed] [] rfl (.detachUnlock false))
  have h := h.tail trivial (.thread [.mainFreed] [] rfl .detachRet)
  have h := h.tail trivial (.callFree _ rfl rfl (by simp))
  have h := h.tail trivial (.free _ rfl (.lockProc rfl))
  have h := h.tail trivial (.free _ rfl (.wait (.lock rfl)))
  have h := h.tail trivial (.free _ rfl (.pass rfl))
  have h := h.tail trivial (.free _ rfl (.proceed (by decide)))
  have h := h.tail trivial (.free _ rfl (.unlock _))
  have h := h.tail trivial (.free _ rfl .destroy)
  have h := h.tail trivial (.free _ rfl .ret)
  refine ⟨_, h, fun hlife => ?_⟩
  have hfreed := (hlife.final ⟨rfl, by simp [Pc.done]⟩).2 2 (by decide)
  exact absurd hfreed (by decide)

end LfiRuntime.ProcThreads
