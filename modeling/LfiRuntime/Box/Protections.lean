import LfiRuntime.Box.Box
import LfiRuntime.Mmap.PageTable

/-!
What the helpers of `box.c` do to the pages of the host: which pages they keep
to, and which protections they leave behind when they succeed or fail.
-/

namespace LfiRuntime.Box

open LfiRuntime.PagedMemory
open LfiRuntime.Config
open LfiRuntime.HostCalls
open LfiRuntime.Mmap

/-- How the host call with index `i`, counted from now on, ends. -/
def result (h : Host) (i : Nat) : Outcome := h.outcomes.getD i .ok

def outcome (h : Host) (i : Nat) : Bool := (result h i).isOk

/-- Nothing changes but the pages of `[start, start + len)`. -/
structure Within (ps start len : Nat) (h h' : Host) : Prop where
  pages : ∀ p, ¬InSpan ps start len p → h'.mem.pages p = h.mem.pages p
  lazy : ∀ p, ¬InSpan ps start len p → h'.mem.lazy p = h.mem.lazy p
  bytes : ∀ a, ¬InSpan ps start len (a / ps) → h'.mem.read ps a = h.mem.read ps a

variable {e : Engine} {ps start len size p : Nat} {h h' h'' : Host}

theorem result_tail (h : Host) (i : Nat) (m : Memory) :
    result (used h m) i = result h (i + 1) := by
  simp [result, List.getD_eq_getElem?_getD]

theorem outcome_tail (h : Host) (i : Nat) (m : Memory) :
    outcome (used h m) i = outcome h (i + 1) := by
  rw [outcome, result_tail, outcome]

theorem next_eq (h : Host) : next h = result h 0 := by
  rw [next, result]
  cases h.outcomes <;> rfl

namespace Within

theorem of_mem (hmem : h'.mem = h.mem) : Within ps start len h h' :=
  ⟨fun p _ => by rw [hmem], fun p _ => by rw [hmem], fun a _ => by rw [hmem]⟩

theorem refl (h : Host) : Within ps start len h h := .of_mem rfl

theorem trans (hw : Within ps start len h h') (hw' : Within ps start len h' h'') :
    Within ps start len h h'' :=
  ⟨fun p hp => (hw'.pages p hp).trans (hw.pages p hp),
    fun p hp => (hw'.lazy p hp).trans (hw.lazy p hp),
    fun a ha => (hw'.bytes a ha).trans (hw.bytes a ha)⟩

theorem mono {start' len' : Nat} (hw : Within ps start' len' h h')
    (hsub : ∀ p, InSpan ps start' len' p → InSpan ps start len p) : Within ps start len h h' :=
  ⟨fun p hp => hw.pages p fun hin => hp (hsub p hin),
    fun p hp => hw.lazy p fun hin => hp (hsub p hin),
    fun a ha => hw.bytes a fun hin => ha (hsub _ hin)⟩

theorem prot (hw : Within ps start len h h') (hp : ¬InSpan ps start len p) :
    h'.mem.prot p = h.mem.prot p :=
  Memory.prot_eq_of_pages (hw.pages p hp)

theorem backing (hw : Within ps start len h h') (hp : ¬InSpan ps start len p) :
    h'.mem.backing p = h.mem.backing p := by
  simp only [Memory.backing, hw.pages p hp]

theorem cell (hw : Within ps start len h h') {a : Nat} (ha : ¬InSpan ps start len (a / ps)) :
    h'.mem.cell ps a = h.mem.cell ps a :=
  Memory.cell_congr (hw.backing ha) (hw.lazy _ ha)

theorem target (hw : Within ps start len h h') {a : Nat} (ha : ¬InSpan ps start len (a / ps)) :
    h'.mem.target ps a = h.mem.target ps a :=
  Memory.target_congr (hw.backing ha)

end Within

/-! Host calls, by their outcome. -/

/-- The host call with index `i`, on the pages from `start` on, has its effect on page `p`. -/
def ReachesPage (ps : Nat) (h : Host) (i start p : Nat) : Prop :=
  match result h i with
  | .ok => True
  | .fail pages => p < start / ps + pages

instance (ps : Nat) (h : Host) (i start p : Nat) : Decidable (ReachesPage ps h i start p) := by
  unfold ReachesPage
  split <;> infer_instance

theorem reachesPage_of_ok {i : Nat} (hok : outcome h i = true) : ReachesPage ps h i start p := by
  rw [outcome] at hok
  rw [ReachesPage]
  split
  · trivial
  · rename_i heq
    rw [heq] at hok
    cases hok

/-- The pages that a call reaches are those of the bytes it has its effect on. -/
theorem inSpan_extent_iff (hal : start % ps = 0) (i : Nat) :
    InSpan ps start ((result h i).extent ps len) p ↔
      InSpan ps start len p ∧ ReachesPage ps h i start p := by
  rw [ReachesPage]
  split
  · rename_i heq
    simp [heq]
  · rename_i n heq
    rw [heq, Outcome.extent]
    obtain ⟨k, rfl⟩ := Nat.dvd_of_mod_eq_zero hal
    rcases Nat.eq_zero_or_pos ps with rfl | hps
    · simp [InSpan, spanEnd]
    have hend : ∀ l, spanEnd ps (ps * k) l = k + (l + ps - 1) / ps := by
      intro l
      rw [spanEnd, show ps * k + l + ps - 1 = ps * k + (l + ps - 1) by omega,
        Nat.mul_add_div hps]
    have hpages : (n * ps + ps - 1) / ps = n := by
      rw [show n * ps + ps - 1 = ps * n + (ps - 1) by rw [Nat.mul_comm]; omega,
        Nat.mul_add_div hps, Nat.div_eq_of_lt (by omega), Nat.add_zero]
    have hmono : ∀ {l l'}, l ≤ l' → (l + ps - 1) / ps ≤ (l' + ps - 1) / ps := fun hle =>
      Nat.div_le_div_right (by omega)
    simp only [InSpan, hend, Nat.mul_div_cancel_left _ hps]
    rcases Nat.le_total len (n * ps) with hle | hle
    · have := hmono hle
      rw [Nat.min_eq_left hle]
      omega
    · have := hmono hle
      rw [Nat.min_eq_right hle]
      omega

theorem mprotect_eq (hal : start % ps = 0) (pr : Prot) :
    mprotect ps h start len pr =
      (outcome h 0, used h (h.mem.mprotect ps start ((result h 0).extent ps len) pr)) := by
  rw [mprotect_eq_next hal, next_eq, outcome]

theorem munmap_eq (hal : start % ps = 0) (hlen : 0 < len) :
    munmap ps h start len =
      (outcome h 0, used h (h.mem.munmap ps start ((result h 0).extent ps len))) := by
  rw [munmap_eq_next hlen hal, next_eq, outcome]

/-- Whether a host `mmap` with valid bounds succeeds: the source has to exist. -/
def mmapOk (h : Host) (src : Option Source) : Bool := outcome h 0 && src.isSome

/-- What a host `mmap` with valid bounds makes of memory. -/
def mmapMem (ps : Nat) (h : Host) (start len : Nat) (pr : Prot) : Option Source → Memory
  | none => h.mem
  | some s =>
      if outcome h 0 then h.mem.mmapFixed ps start len pr s
      else h.mem.munmap ps start ((result h 0).extent ps len)

theorem mmap_eq (hal : start % ps = 0) (hlen : 0 < len) (hend : start + len ≤ 2 ^ 64) (pr : Prot)
    (src : Option Source) :
    mmap ps h start len pr src = (mmapOk h src, used h (mmapMem ps h start len pr src)) := by
  cases src with
  | none =>
      simp only [mmap, mmapOk, Option.isSome_none, Bool.and_false]
      rfl
  | some s =>
      rw [mmap_eq_next hlen hal hend, next_eq, mmapOk, Option.isSome_some, Bool.and_true]
      rfl

theorem mmapMem_ok {src : Option Source} (hok : mmapOk h src = true) (pr : Prot) :
    mmapMem ps h start len pr src = h.mem.mmapFixed ps start len pr (src.getD .anon) := by
  cases src with
  | none => simp [mmapOk] at hok
  | some s =>
      rw [mmapOk, Option.isSome_some, Bool.and_true] at hok
      rw [mmapMem, hok, if_pos rfl]
      rfl

theorem within_mem_mprotect (h : Host) {n : Nat} (hle : n ≤ len) (pr : Prot) :
    Within ps start len h (used h (h.mem.mprotect ps start n pr)) :=
  ⟨fun _ hp => Memory.pages_mprotect_of_not fun hin => hp (inSpan_mono le_rfl (by omega) hin),
    fun _ _ => rfl, fun _ _ => Memory.read_mprotect ..⟩

theorem within_mem_munmap (h : Host) {n : Nat} (hle : n ≤ len) :
    Within ps start len h (used h (h.mem.munmap ps start n)) := by
  refine Within.mono ⟨fun p hp => ?_, fun p hp => Memory.lazy_munmap_of_not hp,
    fun a ha => Memory.read_munmap_of_not ha⟩
    fun p hp => inSpan_mono le_rfl (Nat.add_le_add_left hle start) hp
  simp [Memory.munmap, hp]

theorem within_mprotect (ps : Nat) (h : Host) (start len : Nat) (pr : Prot) :
    Within ps start len h (mprotect ps h start len pr).2 := by
  rcases mprotect_cases ps h start len pr with ⟨-, -, heq⟩ | ⟨-, n, hn, heq⟩ | heq
  · rw [heq]
    exact within_mem_mprotect h le_rfl pr
  · rw [heq]
    exact within_mem_mprotect h hn pr
  · rw [heq]
    exact .of_mem rfl

theorem within_mmap (ps : Nat) (h : Host) (start len : Nat) (pr : Prot) (src : Option Source) :
    Within ps start len h (mmap ps h start len pr src).2 := by
  rcases mmap_cases ps h start len pr src with ⟨s, -, -, -, -, heq⟩ | ⟨-, n, hn, heq⟩ | heq
  · rw [heq]
    exact ⟨fun p hp => Memory.pages_mmapFixed_of_not hp,
      fun p hp => Memory.lazy_mmapFixed_of_not hp, fun a ha => Memory.read_mmapFixed_of_not ha⟩
  · rw [heq]
    exact within_mem_munmap h hn
  · rw [heq]
    exact .of_mem rfl

theorem within_munmap (ps : Nat) (h : Host) (start len : Nat) :
    Within ps start len h (munmap ps h start len).2 := by
  rcases munmap_cases ps h start len with ⟨-, n, hn, heq⟩ | heq
  · rw [heq]
    exact within_mem_munmap h hn
  · rw [heq]
    exact .of_mem rfl

theorem within_lfivVerify (h : Host) (base : Nat) :
    Within e.opts.pagesize start len h
      (HostCalls.lfivVerify e.opts.pagesize e h base size).2 := by
  rcases lfivVerify_cases e.opts.pagesize e h base size with ⟨-, heq⟩ | ⟨-, heq⟩ <;>
  · rw [heq]
    exact .of_mem rfl

theorem within_mapmem (h : Host) (start size : Nat) (prot flags : BitVec 32) (fd off : Int) :
    Within e.opts.pagesize start size h (mapmem e h start size prot flags fd off).2 := by
  have hmap := within_mmap e.opts.pagesize h start size (hostProt e.target prot)
    (hostSource e.opts.pagesize flags fd off)
  simp only [mapmem]
  split_ifs
  · exact hmap
  · exact (hmap.trans (within_mprotect ..)).trans (within_munmap ..)
  · exact hmap.trans (within_mprotect ..)
  · exact hmap

theorem within_mapverify (h : Host) (start size : Nat) (prot flags : BitVec 32) (fd off : Int)
    (noVerify : Bool) :
    Within e.opts.pagesize start size h (mapverify e h start size prot flags fd off noVerify).2 := by
  have hmap := within_mapmem (e := e) h start size LFI_PROT_READ flags fd off
  simp only [mapverify]
  split_ifs
  · exact within_mapmem ..
  · exact .refl h
  · exact hmap
  · exact hmap.trans (within_lfivVerify ..)
  · exact (hmap.trans (within_lfivVerify ..)).trans (within_mprotect ..)

theorem within_protectverify (h : Host) (base size : Nat) (prot : BitVec 32) (noVerify : Bool) :
    Within e.opts.pagesize base size h (protectverify e h base size prot noVerify).2 := by
  have hread := within_mprotect e.opts.pagesize h base size Prot.readOnly
  simp only [protectverify]
  split_ifs
  · exact within_mprotect ..
  · exact .refl h
  · exact hread.trans (within_lfivVerify ..)
  · exact (hread.trans (within_lfivVerify ..)).trans (within_mprotect ..)

theorem within_cbunmap (h : Host) (piece : Piece) :
    Within e.opts.pagesize piece.start piece.len h (cbunmap e h piece) := by
  have hmap := within_mmap e.opts.pagesize h piece.start piece.len Prot.none (some .anon)
  simp only [cbunmap]
  split_ifs
  · exact hmap
  · exact hmap.trans (within_mprotect ..)

theorem within_foldl_cbunmap (pieces : List Piece)
    (hsub : ∀ piece ∈ pieces, ∀ p, InSpan e.opts.pagesize piece.start piece.len p →
      InSpan e.opts.pagesize start len p) (h : Host) :
    Within e.opts.pagesize start len h (pieces.foldl (cbunmap e) h) := by
  induction pieces generalizing h with
  | nil => exact .refl h
  | cons piece pieces ih =>
      have hhead := (within_cbunmap (e := e) h piece).mono (hsub piece List.mem_cons_self)
      exact hhead.trans (ih (fun q hq => hsub q (List.mem_cons_of_mem _ hq)) _)

/-! Calls that succeed. -/

/-- The pages of the range are there, with a protection. -/
def Given (ps start len : Nat) (h : Host) (pr : Prot) : Prop :=
  ∀ p, InSpan ps start len p → (h.mem.pages p).isSome ∧ h.mem.prot p = pr

theorem isSome_mprotect (h : Host) (start len : Nat) (pr : Prot) (p : Nat) :
    ((mprotect ps h start len pr).2.mem.pages p).isSome = (h.mem.pages p).isSome := by
  have hsome : ∀ n, ((h.mem.mprotect ps start n pr).pages p).isSome = (h.mem.pages p).isSome := by
    intro n
    by_cases hp : InSpan ps start n p <;> simp [Memory.mprotect, hp]
  rcases mprotect_cases ps h start len pr with ⟨-, -, heq⟩ | ⟨-, n, -, heq⟩ | heq
  · rw [heq]
    exact hsome len
  · rw [heq]
    exact hsome n
  · rw [heq]
    rfl

theorem sameBytes_mprotect (ps : Nat) (h : Host) (start len : Nat) (pr : Prot) :
    Memory.SameBytes (mprotect ps h start len pr).2.mem h.mem := by
  rcases mprotect_cases ps h start len pr with ⟨-, -, heq⟩ | ⟨-, n, -, heq⟩ | heq
  · rw [heq]
    exact .mprotect ..
  · rw [heq]
    exact .mprotect ..
  · rw [heq]
    exact .refl _

theorem prot_mprotect_ok {pr : Prot} (hok : (mprotect ps h start len pr).1 = true)
    (hp : InSpan ps start len p) (hsome : (h.mem.pages p).isSome) :
    (mprotect ps h start len pr).2.mem.prot p = pr := by
  rcases mprotect_cases ps h start len pr with ⟨-, -, heq⟩ | ⟨-, n, -, heq⟩ | heq
  · rw [heq]
    exact Memory.prot_mprotect_of_mapped hp hsome
  · rw [heq] at hok
    cases hok
  · rw [heq] at hok
    cases hok

theorem given_mmap {pr : Prot} {src : Option Source} (hok : (mmap ps h start len pr src).1 = true) :
    Given ps start len (mmap ps h start len pr src).2 pr := by
  rcases mmap_cases ps h start len pr src with ⟨s, -, -, -, -, heq⟩ | ⟨-, n, -, heq⟩ | heq
  · rw [heq]
    intro p hp
    refine ⟨?_, by rw [mem_used, Memory.prot_mmapFixed, if_pos hp]⟩
    cases s <;> simp [Memory.mmapFixed, hp]
  · rw [heq] at hok
    cases hok
  · rw [heq] at hok
    cases hok

theorem Given.mprotect {pr pr' : Prot} (hg : Given ps start len h pr')
    (hok : (HostCalls.mprotect ps h start len pr).1 = true) :
    Given ps start len (HostCalls.mprotect ps h start len pr).2 pr := by
  intro p hp
  refine ⟨?_, prot_mprotect_ok hok hp (hg p hp).1⟩
  rw [isSome_mprotect]
  exact (hg p hp).1

theorem mem_lfivVerify (h : Host) (base size : Nat) :
    (HostCalls.lfivVerify ps e h base size).2.mem = h.mem := by
  rcases lfivVerify_cases ps e h base size with ⟨-, heq⟩ | ⟨-, heq⟩ <;> rw [heq]

section

variable {prot flags : BitVec 32} {fd off : Int} {noVerify : Bool}

theorem given_mapmem (hok : (mapmem e h start size prot flags fd off).1 = true) :
    Given e.opts.pagesize start size (mapmem e h start size prot flags fd off).2
      (hostProt e.target prot) := by
  simp only [mapmem] at hok ⊢
  split at hok
  · cases hok
  · rename_i hmap
    have hgiven := given_mmap (by simpa using hmap)
    rw [if_neg hmap]
    split at hok
    · rename_i hpku
      rw [if_pos hpku]
      split at hok
      · cases hok
      · rename_i hkey
        rw [if_neg hkey]
        exact hgiven.mprotect (by simpa using hkey)
    · rename_i hpku
      rw [if_neg hpku]
      exact hgiven

theorem given_mapverify (hok : (mapverify e h start size prot flags fd off noVerify).1 = true) :
    Given e.opts.pagesize start size (mapverify e h start size prot flags fd off noVerify).2
      (hostProt e.target prot) := by
  simp only [mapverify] at hok ⊢
  split at hok
  · rename_i hskip
    rw [if_pos hskip]
    exact given_mapmem hok
  · rename_i hskip
    rw [if_neg hskip]
    split at hok
    · cases hok
    · rename_i hwx
      rw [if_neg hwx]
      split at hok
      · cases hok
      · rename_i hmap
        rw [if_neg hmap]
        split at hok
        · cases hok
        · rename_i hver
          rw [if_neg hver]
          have hread : (mapmem e h start size LFI_PROT_READ flags fd off).1 = true := by
            simpa using hmap
          have hgiven := given_mapmem hread
          have hverified : Given e.opts.pagesize start size
              (HostCalls.lfivVerify e.opts.pagesize e
                (mapmem e h start size LFI_PROT_READ flags fd off).2 start size).2
              (hostProt e.target LFI_PROT_READ) := by
            intro p hp
            rw [Memory.prot, mem_lfivVerify]
            exact hgiven p hp
          exact hverified.mprotect hok

theorem prot_protectverify (hok : (protectverify e h start size prot noVerify).1 = true)
    (hp : InSpan e.opts.pagesize start size p) (hsome : (h.mem.pages p).isSome) :
    (protectverify e h start size prot noVerify).2.mem.prot p = hostProt e.target prot := by
  simp only [protectverify] at hok ⊢
  split at hok
  · rename_i hskip
    rw [if_pos hskip]
    exact prot_mprotect_ok hok hp hsome
  · rename_i hskip
    rw [if_neg hskip]
    split at hok
    · cases hok
    · rename_i hwx
      rw [if_neg hwx]
      split at hok
      · cases hok
      · rename_i hver
        rw [if_neg hver]
        refine prot_mprotect_ok hok hp ?_
        rw [mem_lfivVerify, protectmem, isSome_mprotect]
        exact hsome

/-- A change of protection changes no bytes. -/
theorem sameBytes_protectverify (h : Host) (start size : Nat) (prot : BitVec 32) (noVerify : Bool) :
    Memory.SameBytes (protectverify e h start size prot noVerify).2.mem h.mem := by
  simp only [protectverify]
  split_ifs
  · exact sameBytes_mprotect ..
  · exact .refl _
  · rw [mem_lfivVerify]
    exact sameBytes_mprotect ..
  · refine (sameBytes_mprotect ..).trans ?_
    rw [mem_lfivVerify]
    exact sameBytes_mprotect ..

theorem isSome_protectverify (h : Host) (start size : Nat) (prot : BitVec 32) (noVerify : Bool)
    (p : Nat) :
    ((protectverify e h start size prot noVerify).2.mem.pages p).isSome =
      (h.mem.pages p).isSome := by
  simp only [protectverify]
  split_ifs
  · exact isSome_mprotect ..
  · rfl
  · rw [mem_lfivVerify]
    exact isSome_mprotect ..
  · refine (isSome_mprotect ..).trans ?_
    rw [mem_lfivVerify]
    exact isSome_mprotect ..

end

end LfiRuntime.Box
