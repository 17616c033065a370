import LfiRuntime.Arch.X64.Callback
import LfiRuntime.Arch.X64.Enter
import LfiRuntime.Arch.X64.GsBase

/-!
The instructions of `seg_gs_set` do to `%gs` and to the cache what the model of
the runs says, and no other instruction of the four ways into the sandbox writes
the segment base.
-/

namespace LfiRuntime.X64

open LfiRuntime.BlockMemory
open LfiRuntime.Layout

def Instr.writesGs : Instr → Bool
  | .wrgsbase _ => true
  | _ => false

variable {b : Build} {s : State} {c : Nat} {slot : W} {th : GsCache.Thread} {q scratch : Reg}

theorem gsBase_exec {is : List Instr} (h : ∀ i ∈ is, i.writesGs = false) (s : State) :
    (exec is s).gsBase = s.gsBase := by
  refine exec_keeps (·.gsBase) (·.writesGs = false) ?_ h s
  intro i s hi
  cases i
  all_goals first
    | rfl
    | cases hi

/-- The machine state has the thread `th` of a state of the runs, with its slot at
the address `slot`, and the context `c` is bound to it. -/
structure Shows (c : Nat) (slot : W) (s : State) (th : GsCache.Thread) : Prop where
  gs : s.gsBase = .int th.gs
  r14 : s.reg .r14 = .int th.r14
  gsBase : s.mem slot = .int th.gsBase
  gsCache : s.mem (.ptr (.ctx c) CTX_GS_CACHE) = slot
  apart : ∃ d o, slot = .ptr d o ∧ ∀ i, d ≠ .ctx i

theorem segGsSet_shows (h : Shows c slot s th) (hctx : s.reg q = .ptr (.ctx c) 0)
    (hscratch : scratch ≠ .r14) :
    Shows c slot (segGsSet b q scratch s) (th.setGs b.segueCacheGs) := by
  obtain ⟨hgs, hr14, hslot, hcache, d, o, rfl, hd⟩ := h
  have hne : Word.ptr (.ctx c) CTX_GS_CACHE ≠ .ptr d o := fun heq => hd c (Word.ptr.inj heq).1.symm
  unfold segGsSet GsCache.Thread.setGs
  cases b.segueCacheGs with
  | false => exact ⟨hr14, hr14, hslot, hcache, d, o, rfl, hd⟩
  | true =>
      let s₁ := exec [.load CTX_GS_CACHE q scratch, .cmpMem .r14 0 scratch] s
      have hr14₁ : s₁.reg .r14 = .int th.r14 := by
        rw [← hr14]
        simp [s₁, exec1, hscratch.symm]
      have hscratch₁ : s₁.reg scratch = .ptr d o := by
        simp [s₁, exec1, State.ea, hctx, hcache]
      have hflags : s₁.flags.zf = decide (th.gsBase = th.r14) := by
        simp [s₁, exec1, State.ea, hctx, hcache, hslot, hr14, hscratch.symm, Flags.zf]
      have hmem₁ : s₁.mem = s.mem := mem_exec (by simp [Instr.stores]) s
      have hgs₁ : s₁.gsBase = .int th.gs := (gsBase_exec (by simp [Instr.writesGs]) s).trans hgs
      simp only [if_true]
      rw [show exec [.load CTX_GS_CACHE q scratch, .cmpMem .r14 0 scratch] s = s₁ from rfl, hflags]
      by_cases hhit : th.gsBase = th.r14
      · simp only [hhit, decide_true, if_true]
        exact ⟨hgs₁, hr14₁, by rw [hmem₁, hslot], by rw [hmem₁, hcache], d, o, rfl, hd⟩
      · simp only [hhit, decide_false, Bool.false_eq_true, if_false]
        refine ⟨?_, ?_, ?_, ?_, d, o, rfl, hd⟩
        · exact hr14₁
        · simp [exec1, GsCache.loadGs, hr14₁]
        · simp [exec1, GsCache.loadGs, State.ea, hscratch₁, hr14₁]
        · simp [exec1, State.ea, hscratch₁, Cells.set_apply, hne, hmem₁, hcache]

/-! The four ways in. Each ends with the segment base that the macro has left. -/

theorem gs_loadFp (ctx : Reg) (s : State) : (loadFp b ctx s).gsBase = s.gsBase := by
  unfold loadFp
  cases b.storesOnly <;> rfl

theorem gs_pkuBoxAccess (s : State) : (pkuBoxAccess b s).gsBase = s.gsBase := by
  unfold pkuBoxAccess
  cases b.storesOnly <;> rfl

/-- A switch to the key of the box, between instructions that keep the segment base. -/
theorem gs_pku {is js k : List Instr} (his : ∀ i ∈ is, i.writesGs = false)
    (hjs : ∀ i ∈ js, i.writesGs = false) (hks : ∀ i ∈ k, i.writesGs = false) (s : State) :
    (if b.pku then exec js (pkuBoxAccess b (exec is s)) else exec k s).gsBase = s.gsBase := by
  cases b.pku with
  | false => exact gsBase_exec hks s
  | true =>
      simp only [if_true]
      rw [gsBase_exec hjs, gs_pkuBoxAccess, gsBase_exec his]

theorem gs_unless {is : List Instr} (his : ∀ i ∈ is, i.writesGs = false) (s : State) :
    (if b.storesOnly then s else exec is s).gsBase = s.gsBase := by
  cases b.storesOnly with
  | false => exact gsBase_exec his s
  | true => rfl

theorem commonEnter_gs (hsegue : b.segue = true) (hctx : s.reg .r11 = .ptr (.ctx c) 0)
    (h : Shows c slot (if b.segueCacheGs then exec [.store .rbx CTX_GS_CACHE .r11] s else s) th) :
    (commonEnter b s).gsBase = .int (th.setGs b.segueCacheGs).gs := by
  have hctx' : (if b.segueCacheGs then exec [.store .rbx CTX_GS_CACHE .r11] s else s).reg .r11 =
      .ptr (.ctx c) 0 := by
    cases b.segueCacheGs <;> exact hctx
  have hshows := segGsSet_shows (b := b) (q := .r11) h hctx' (by decide : Reg.rbx ≠ .r14)
  unfold commonEnter commonSegue
  simp only [hsegue, if_true]
  rw [gsBase_exec (by decide), gs_unless (by decide), gsBase_exec (by decide)]
  refine (gs_pku (k := []) (by decide) (by decide) (by decide) _).trans ?_
  rw [gs_loadFp, gsBase_exec (by decide)]
  exact hshows.gs

theorem lfiCtxEntry_gs (hsegue : b.segue = true)
    (hctx : (exec ctxEntryLoad (exec ctxEntrySave s)).reg .rdi = .ptr (.ctx c) 0)
    (h : Shows c slot (exec ctxEntryLoad (exec ctxEntrySave s)) th) :
    (lfiCtxEntry b s).gsBase = .int (th.setGs b.segueCacheGs).gs := by
  have hshows := segGsSet_shows (b := b) (q := .rdi) h hctx (by decide : Reg.r15 ≠ .r14)
  unfold lfiCtxEntry
  simp only [hsegue, if_true]
  rw [gsBase_exec (by decide), gsBase_exec (by decide)]
  refine (gs_pku (by decide) (by decide) (by decide) _).trans ?_
  rw [gsBase_exec (by decide)]
  exact hshows.gs

theorem lfiCallbackEnd_gs (ws : Bool) (hsegue : b.segue = true)
    (hctx : s.top = .ptr (.ctx c) 0) (h : Shows c slot s th)
    (habort : s.mem (.ptr (.ctx c) CTX_ABORT_CALLBACK) ≠ .int 1) :
    (lfiCallbackEnd b ws s).gsBase = .int (th.setGs b.segueCacheGs).gs := by
  let s₁ := exec [.pop .r11, .cmpMemImm 1 CTX_ABORT_CALLBACK .r11] s
  have hctx₁ : s₁.reg .r11 = .ptr (.ctx c) 0 := by
    simp [s₁, exec1, hctx]
  have hshows₁ : Shows c slot s₁ th := by
    obtain ⟨hgs, hr14, hslot, hcache, hapart⟩ := h
    exact ⟨hgs, hr14, hslot, hcache, hapart⟩
  have hflags : s₁.flags.zf = false := by
    simpa [s₁, exec1, State.drop, State.ea, hctx, Flags.zf] using habort
  have hshows := segGsSet_shows (b := b) (q := .r11) hshows₁ hctx₁ (by decide : Reg.r10 ≠ .r14)
  have htail : ∀ t, (callbackTail b ws t).gsBase = t.gsBase := by
    intro t
    unfold callbackTail
    rw [gsBase_exec (by decide), gs_unless (by decide)]
    refine (gs_pku (k := []) (by decide) (by decide) (by decide) _).trans ?_
    rw [gs_loadFp]
    cases ws <;> rfl
  unfold lfiCallbackEnd
  simp only [show exec [.pop .r11, .cmpMemImm 1 CTX_ABORT_CALLBACK .r11] s = s₁ from rfl, hflags,
    hsegue, Bool.false_eq_true, if_false, if_true]
  rw [htail, gsBase_exec (by decide)]
  exact hshows.gs

theorem lfiSyscallEnd_gs (hsegue : b.segue = true) (hctx : s.top = .ptr (.ctx c) 0)
    (h : Shows c slot s th) :
    (lfiSyscallEnd b s).gsBase = .int (th.setGs b.segueCacheGs).gs := by
  have hctx' : (exec [.pop .rcx] s).reg .rcx = .ptr (.ctx c) 0 := by
    simp [exec1, hctx]
  have hpop : Shows c slot (exec [.pop .rcx] s) th := by
    obtain ⟨hgs, hr14, hslot, hcache, hapart⟩ := h
    exact ⟨hgs, hr14, hslot, hcache, hapart⟩
  have hshows := segGsSet_shows (b := b) (q := .rcx) hpop hctx' (by decide : Reg.rax ≠ .r14)
  unfold lfiSyscallEnd
  simp only [hsegue, if_true]
  rw [gsBase_exec (by decide)]
  refine (gs_pku (k := []) (by decide) (by decide) (by decide) _).trans ?_
  rw [gsBase_exec (by decide), gsBase_exec (by decide)]
  exact hshows.gs

end LfiRuntime.X64
