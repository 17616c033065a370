import Mathlib.Order.Bounds.Basic
import LfiRuntime.Linux.Stack

/-!
What a new thread finds on its stack: the arguments and the environment that fit, each
string in one copy that its pointer refers to.
-/

namespace LfiRuntime.Stack

open LfiRuntime.Align
open LfiRuntime.ByteString
open LfiRuntime.Elf
open LfiRuntime.Mmap
open LfiRuntime.PagedMemory
open LfiRuntime.Stores

/-- The string as it is copied. -/
def cut (maxlen : Nat) (s : Bytes) : Bytes := (cString s).take maxlen

/-- The bytes of the copies. -/
def area (maxlen : Nat) (strs : List Bytes) : Nat := (strs.map fun s => strnlen s maxlen + 1).sum

/-- The bytes of the copies and of their pointers. -/
def cost (maxlen : Nat) (strs : List Bytes) : Nat := area maxlen strs + 8 * strs.length

variable {budget maxlen limit count k n used dst : Nat} {strs : List Bytes} {s : Bytes}
  {c : Counts}

@[simp] theorem area_cons (maxlen : Nat) (s : Bytes) (strs : List Bytes) :
    area maxlen (s :: strs) = strnlen s maxlen + 1 + area maxlen strs := rfl

@[simp] theorem cost_cons (maxlen : Nat) (s : Bytes) (strs : List Bytes) :
    cost maxlen (s :: strs) = strnlen s maxlen + 1 + 8 + cost maxlen strs := by
  simp only [cost, area_cons, List.length_cons]
  omega

@[simp] theorem cost_nil (maxlen : Nat) : cost maxlen [] = 0 := rfl

@[simp] theorem length_cut (maxlen : Nat) (s : Bytes) : (cut maxlen s).length = strnlen s maxlen := by
  rw [cut, List.length_take, strnlen, Nat.min_comm]

theorem take_strnlen (maxlen : Nat) (s : Bytes) : s.take (strnlen s maxlen) = cut maxlen s := by
  have hprefix : cString s = s.take (cString s).length :=
    List.prefix_iff_eq_take.mp (List.takeWhile_prefix _)
  rw [cut, strnlen, Nat.min_comm, ← List.take_take, ← hprefix]

/-- How many strings can be kept of those that are offered. -/
def Fitting (maxlen budget used : Nat) (strs : List Bytes) : Set Nat :=
  {k | k ≤ strs.length ∧ used + cost maxlen (strs.take k) ≤ budget}

theorem le_of_mem_fitting (h : k ∈ Fitting maxlen budget used (strs.take limit)) :
    k ≤ strs.length ∧ used + cost maxlen (strs.take k) ≤ budget := by
  obtain ⟨hk, hcost⟩ := h
  rw [List.length_take] at hk
  rw [List.take_take, Nat.min_eq_left (by omega)] at hcost
  exact ⟨by omega, hcost⟩

/-- The first pass counts the longest prefix that fits. -/
theorem countStrings_spec (hused : c.used ≤ budget) :
    ∃ k, IsGreatest (Fitting maxlen budget c.used (strs.take limit)) k ∧
      countStrings budget maxlen limit strs c =
        ⟨c.n + k, c.used + cost maxlen (strs.take k), c.strsLen + area maxlen (strs.take k)⟩ := by
  induction limit generalizing strs c with
  | zero =>
      refine ⟨0, ⟨⟨Nat.zero_le _, hused⟩, ?_⟩, rfl⟩
      rintro k ⟨hk, -⟩
      simpa using hk
  | succ limit ih =>
      cases strs with
      | nil =>
          refine ⟨0, ⟨⟨Nat.zero_le _, hused⟩, ?_⟩, rfl⟩
          rintro k ⟨hk, -⟩
          simpa using hk
      | cons s strs =>
          have hptr : sizeofLfiptr = 8 := rfl
          rw [countStrings]
          rcases Nat.lt_or_ge budget (c.used + strnlen s maxlen + 1 + sizeofLfiptr)
            with hover | hfits
          · rw [if_pos hover]
            refine ⟨0, ⟨⟨Nat.zero_le _, hused⟩, ?_⟩, rfl⟩
            rintro (_ | k) ⟨hk, hcost⟩
            · exact le_rfl
            · rw [List.take_succ_cons, List.take_succ_cons, cost_cons] at hcost
              omega
          · rw [if_neg (Nat.not_lt.mpr hfits)]
            obtain ⟨k, ⟨⟨hk, hcost⟩, hmax⟩, heq⟩ := @ih strs
              ⟨c.n + 1, c.used + (strnlen s maxlen + 1 + sizeofLfiptr),
                c.strsLen + (strnlen s maxlen + 1)⟩
              (by dsimp only; omega)
            refine ⟨k + 1, ⟨⟨?_, ?_⟩, ?_⟩, ?_⟩
            · rw [List.take_succ_cons, List.length_cons]
              exact Nat.succ_le_succ hk
            · rw [List.take_succ_cons, List.take_succ_cons, cost_cons]
              dsimp only at hcost
              omega
            · rintro (_ | j) ⟨hj, hjcost⟩
              · exact Nat.zero_le _
              · rw [List.take_succ_cons, List.length_cons] at hj
                rw [List.take_succ_cons, List.take_succ_cons, cost_cons] at hjcost
                refine Nat.succ_le_succ (hmax ⟨Nat.le_of_succ_le_succ hj, ?_⟩)
                dsimp only
                omega
            · rw [heq, List.take_succ_cons, cost_cons, area_cons]
              simp only [Counts.mk.injEq]
              omega

/-- The stores of one string and of the zero behind it. -/
def stringStores (p : Nat) (s : Bytes) : List Store := [(p, s), (p + s.length, [0])]

theorem consecutive_stringStores (p : Nat) (s : Bytes) :
    Consecutive p (stringStores p s) (p + s.length + 1) := .cons (.cons (.nil _))

/-- The second pass stores the strings in a row. -/
theorem copyStrings_spec (hn : n ≤ strs.length)
    (hfits : dst + count + area maxlen (strs.take n) < 2 ^ 64) :
    (copyStrings dst maxlen n strs count).count = count + area maxlen (strs.take n) ∧
      Consecutive (dst + count) (copyStrings dst maxlen n strs count).stores
        (dst + count + area maxlen (strs.take n)) ∧
      List.Forall₂
        (fun p s => p < 2 ^ 64 ∧ stringStores p s ⊆ (copyStrings dst maxlen n strs count).stores)
        (copyStrings dst maxlen n strs count).ptrs ((strs.take n).map (cut maxlen)) := by
  induction n generalizing strs count with
  | zero => exact ⟨rfl, .nil _, .nil⟩
  | succ n ih =>
      cases strs with
      | nil => cases hn
      | cons s strs =>
          have hlen := length_cut maxlen s
          rw [List.take_succ_cons, area_cons, ← hlen] at hfits
          obtain ⟨hcount, hrow, hptrs⟩ := @ih (count + ((cut maxlen s).length + 1)) strs
            (Nat.le_of_succ_le_succ hn) (by omega)
          rw [← Nat.add_assoc dst] at hrow
          have hall := (consecutive_stringStores (dst + count) (cut maxlen s)).append hrow
          rw [copyStrings]
          simp only [List.take_succ_cons, area_cons, List.map_cons]
          rw [add64_eq (by omega), add64_eq (by omega), take_strnlen, ← hlen]
          refine ⟨by rw [hcount]; omega, ?_, .cons ⟨by omega, ?_⟩ ?_⟩
          · rwa [← Nat.add_assoc (dst + count)]
          · intro t ht
            rw [stringStores] at ht
            simp only [List.mem_cons, List.not_mem_nil, or_false] at ht
            rcases ht with rfl | rfl <;> simp
          · refine hptrs.imp ?_
            rintro p s' ⟨hp, hsub⟩
            exact ⟨hp, fun t ht => List.mem_cons_of_mem _ (List.mem_cons_of_mem _ (hsub ht))⟩

/-! Where the parts are. -/

variable {t : LFILinuxThread} {host : HostAnswers} {argc : Int} {argv envp : List Bytes}
  {F : Nat → UInt8} {len m sp : Nat}

theorem truncp_sixteen (h : n < 2 ^ 64) :
    16 ∣ truncp n 16 ∧ truncp n 16 ≤ n ∧ n < truncp n 16 + 16 := by
  have halign : IsAlign 16 := ⟨4, by decide, rfl⟩
  exact ⟨dvd_truncp halign h, truncp_le halign h, lt_truncp_add halign h⟩

theorem stackTop_spec (h : fixed < t.stackSize) :
    t.stackTop host ≤ t.stack + t.stackSize ∧
      t.stack + t.stackSize < t.stackTop host + STACK_RND_RANGE := by
  have hfits := t.fits
  have hoff : host.stackOffset.toNat % STACK_RND_RANGE < STACK_RND_RANGE :=
    Nat.mod_lt _ (by decide)
  have hrange : STACK_RND_RANGE < fixed := by decide
  have hpos : 0 < STACK_RND_RANGE := by decide
  rw [LFILinuxThread.stackTop, add64_eq hfits]
  split
  · omega
  · rw [sub64_eq (by omega) hfits]
    omega

def blockSize (n m : Nat) : Nat :=
  8 + (n + 1) * sizeofLfiptr + (m + 1) * sizeofLfiptr + sizeofAuxvList

/-- The start of the strings, of the random bytes and of the block at the stack
pointer. -/
structure Places (t : LFILinuxThread) (host : HostAnswers) (len n m : Nat)
    (strs rand sp : Nat) : Prop where
  strs_le : strs + len ≤ t.stack + t.stackSize
  rand_eq : rand + 16 = strs
  block_le : sp + blockSize n m ≤ rand
  le_sp : t.stack ≤ sp
  aligned : 16 ∣ sp

/-- The budget covers the strings, the pointers and what the alignment loses. -/
theorem places (h : fixed < t.stackSize) (hlen : len + 8 * (n + m) ≤ t.stackSize - fixed) :
    Places t host len n m (truncp (sub64 (t.stackTop host) len) 16)
      (sub64 (truncp (sub64 (t.stackTop host) len) 16) 16)
      (truncp (sub64 (sub64 (sub64 (sub64 (sub64 (truncp (sub64 (t.stackTop host) len) 16) 16) 8)
        ((n + 1) * sizeofLfiptr)) ((m + 1) * sizeofLfiptr)) sizeofAuxvList) 16) := by
  have hfits := t.fits
  obtain ⟨htop, hoff⟩ := @stackTop_spec t host h
  have hfixed : fixed = 8568 := rfl
  have haux : sizeofAuxvList = 304 := rfl
  have hptr : sizeofLfiptr = 8 := rfl
  have hrnd : STACK_RND_RANGE = 8192 := rfl
  rw [hfixed] at h hlen
  rw [hrnd] at hoff
  rw [sub64_eq (by omega) (by omega)]
  obtain ⟨-, hle, hlt⟩ := @truncp_sixteen (t.stackTop host - len) (by omega)
  generalize truncp (t.stackTop host - len) 16 = strs at hle hlt
  rw [hptr, haux]
  simp (disch := omega) only [sub64_eq]
  obtain ⟨hdvd, hle', hlt'⟩ := @truncp_sixteen
    (strs - 16 - 8 - (n + 1) * 8 - (m + 1) * 8 - 304) (by omega)
  refine ⟨by omega, by omega, ?_, by omega, hdvd⟩
  rw [blockSize, hptr, haux]
  omega

/-! The whole stack. -/

/-- The stores of the block at the stack pointer. -/
def blockStores (sp n : Nat) (boxArgv boxEnvp auxv : List Nat) : List Store :=
  [(sp, wordBytes [n]), (sp + 8, wordBytes boxArgv),
    (sp + 8 + 8 * boxArgv.length, wordBytes boxEnvp),
    (sp + 8 + 8 * boxArgv.length + 8 * boxEnvp.length, wordBytes auxv)]

theorem consecutive_blockStores (sp n : Nat) (boxArgv boxEnvp auxv : List Nat) :
    Consecutive sp (blockStores sp n boxArgv boxEnvp auxv)
      (sp + 8 * (n :: (boxArgv ++ (boxEnvp ++ auxv))).length) := by
  have hend : sp + 8 * (n :: (boxArgv ++ (boxEnvp ++ auxv))).length =
      sp + 8 + 8 * boxArgv.length + 8 * boxEnvp.length + (wordBytes auxv).length := by
    simp only [List.length_cons, List.length_append, length_wordBytes]
    omega
  rw [hend]
  refine .cons ?_
  rw [length_wordBytes]
  refine .cons ?_
  rw [length_wordBytes]
  refine .cons ?_
  rw [length_wordBytes]
  exact .cons (.nil _)

theorem flatMap_blockStores (sp n : Nat) (boxArgv boxEnvp auxv : List Nat) :
    (blockStores sp n boxArgv boxEnvp auxv).flatMap Prod.snd =
      wordBytes (n :: (boxArgv ++ (boxEnvp ++ auxv))) := by
  have hcons : ∀ words, wordBytes (n :: words) = wordBytes [n] ++ wordBytes words :=
    wordBytes_append [n]
  rw [hcons, wordBytes_append, wordBytes_append]
  simp [blockStores]

theorem length_auxvWords (t : LFILinuxThread) (host : HostAnswers) (execfn randStart : Nat) :
    ((auxvList t host execfn randStart).flatMap Auxv.words).length = 38 := rfl

/-- The pointers refer to copies of the strings, between `lo` and `hi`. -/
def Refer (F : Nat → UInt8) (lo hi : Nat) (ptrs : List Nat) (strs : List Bytes) : Prop :=
  List.Forall₂
    (fun p s => lo ≤ p ∧ p + s.length + 1 ≤ hi ∧ bytesAt F p (s.length + 1) = s ++ [0]) ptrs strs

/-- Where the strings and the random bytes start, and the pointers to the strings. -/
structure Layout where
  argvPtrs : List Nat
  envpPtrs : List Nat
  strs : Nat
  rand : Nat

def Layout.auxv (l : Layout) (t : LFILinuxThread) (host : HostAnswers) : List Auxv :=
  auxvList t host ((l.argvPtrs ++ [0]).headD 0) l.rand

/-- The words from the stack pointer on. -/
def Layout.words (l : Layout) (t : LFILinuxThread) (host : HostAnswers) : List Nat :=
  l.argvPtrs.length ::
    ((l.argvPtrs ++ [0]) ++ ((l.envpPtrs ++ [0]) ++ (l.auxv t host).flatMap Auxv.words))

/-- The stack of a thread with the memory `F`, where `n` arguments and `m` strings of the
environment are kept. -/
structure InitialStack (t : LFILinuxThread) (argc : Int) (argv envp : List Bytes)
    (host : HostAnswers) (n m : Nat) (l : Layout) (sp : Nat) (F : Nat → UInt8) : Prop where
  argv_kept : IsGreatest (Fitting ARGV_MAXLEN (t.stackSize - fixed) 0
    (argv.take (min argc ARGV_MAX).toNat)) n
  envp_kept : IsGreatest (Fitting ENVP_MAXLEN (t.stackSize - fixed)
    (cost ARGV_MAXLEN (argv.take n)) (envp.take ENVP_MAX)) m
  aligned : 16 ∣ sp
  block : wordsAt F sp (l.words t host).length = l.words t host
  argv : Refer F l.strs (t.stack + t.stackSize) l.argvPtrs ((argv.take n).map (cut ARGV_MAXLEN))
  envp : Refer F l.strs (t.stack + t.stackSize) l.envpPtrs ((envp.take m).map (cut ENVP_MAXLEN))
  random : bytesAt F l.rand 16 = host.random.toList
  auxv_null : ∃ auxv, l.auxv t host = auxv ++ [⟨LINUX_AT_NULL, 0⟩] ∧
    ∀ a ∈ auxv, a.a_type ≠ LINUX_AT_NULL
  block_le : sp + 8 * (l.words t host).length ≤ l.rand
  rand_le : l.rand + 16 ≤ l.strs

theorem countArgv_spec (argc : Int) (argv : List Bytes) (h : fixed < t.stackSize) :
    ∃ n, IsGreatest (Fitting ARGV_MAXLEN (t.stackSize - fixed) 0
        (argv.take (min argc ARGV_MAX).toNat)) n ∧
      t.countArgv argc argv =
        ⟨n, cost ARGV_MAXLEN (argv.take n), area ARGV_MAXLEN (argv.take n)⟩ := by
  obtain ⟨n, hn, heq⟩ := @countStrings_spec (t.stackSize - fixed) ARGV_MAXLEN
    (min argc ARGV_MAX).toNat argv ⟨0, 0, 0⟩ (Nat.zero_le _)
  refine ⟨n, hn, ?_⟩
  rw [LFILinuxThread.countArgv, LFILinuxThread.budget, if_pos h, heq]
  simp only [Nat.zero_add]

theorem countEnvp_spec {c : Counts} (envp : List Bytes) (h : fixed < t.stackSize)
    (hused : c.used ≤ t.stackSize - fixed) :
    ∃ m, IsGreatest (Fitting ENVP_MAXLEN (t.stackSize - fixed) c.used (envp.take ENVP_MAX)) m ∧
      t.countEnvp c envp =
        ⟨m, c.used + cost ENVP_MAXLEN (envp.take m), c.strsLen + area ENVP_MAXLEN (envp.take m)⟩ := by
  obtain ⟨m, hm, heq⟩ := @countStrings_spec (t.stackSize - fixed) ENVP_MAXLEN ENVP_MAX envp
    ⟨0, c.used, c.strsLen⟩ hused
  refine ⟨m, hm, ?_⟩
  rw [LFILinuxThread.countEnvp, LFILinuxThread.budget, if_pos h, heq]
  simp only [Nat.zero_add]

theorem Refer.of_stores {stores part : List Store} {lo hi : Nat} {ptrs : List Nat}
    {strs : List Bytes} (hall : stores.Pairwise Apart) (hsub : part ⊆ stores)
    (hin : ∀ s ∈ part, lo ≤ s.1 ∧ s.stop ≤ hi)
    (h : List.Forall₂ (fun p s => p < 2 ^ 64 ∧ stringStores p s ⊆ part) ptrs strs) :
    Refer (run F stores) lo hi ptrs strs := by
  refine h.imp ?_
  rintro p s ⟨-, hpart⟩
  have hrow := @bytesAt_run_consecutive F _ _ _ _ hall (consecutive_stringStores p s)
    fun u hu => hsub (hpart hu)
  rw [show p + s.length + 1 - p = s.length + 1 by omega] at hrow
  refine ⟨(hin (p, s) (hpart (by simp [stringStores]))).1,
    (hin (p + s.length, [0]) (hpart (by simp [stringStores]))).2, ?_⟩
  simpa [stringStores] using hrow

theorem lt_of_mem_ptrs {part : List Store} {ptrs : List Nat} {strs : List Bytes}
    (h : List.Forall₂ (fun p s => p < 2 ^ 64 ∧ stringStores p s ⊆ part) ptrs strs) :
    ∀ p ∈ ptrs, p < 2 ^ 64 := by
  intro p hp
  obtain ⟨i, hi, rfl⟩ := List.getElem_of_mem hp
  have hlen := h.length_eq
  exact ((List.forall₂_iff_get.mp h).2 i hi (by omega)).1

theorem Layout.words_lt {l : Layout} (hn : l.argvPtrs.length < 2 ^ 64)
    (hargv : ∀ p ∈ l.argvPtrs, p < 2 ^ 64) (henvp : ∀ p ∈ l.envpPtrs, p < 2 ^ 64) :
    ∀ w ∈ l.words t host, w < 256 ^ 8 := by
  intro w hw
  rw [show (256 : Nat) ^ 8 = 2 ^ 64 by decide]
  simp only [Layout.words, List.mem_cons, List.mem_append, List.not_mem_nil, or_false,
    List.mem_flatMap] at hw
  rcases hw with rfl | (hw | rfl) | (hw | rfl) | ⟨a, -, hw⟩
  · exact hn
  · exact hargv w hw
  · decide
  · exact henvp w hw
  · decide
  · simp only [Auxv.words, List.mem_cons, List.not_mem_nil, or_false] at hw
    rcases hw with rfl | rfl <;> exact Nat.mod_lt _ (by decide)

/-- The stores of `stack_init`: the strings, the random bytes, and the block. -/
theorem stackInit_eq (h : fixed < t.stackSize) (argc : Int) (argv envp : List Bytes)
    (host : HostAnswers) : ∃ n m : Nat, ∃ l : Layout, ∃ strings : List Store, ∃ sp : Nat,
      IsGreatest (Fitting ARGV_MAXLEN (t.stackSize - fixed) 0
        (argv.take (min argc ARGV_MAX).toNat)) n ∧
      IsGreatest (Fitting ENVP_MAXLEN (t.stackSize - fixed) (cost ARGV_MAXLEN (argv.take n))
        (envp.take ENVP_MAX)) m ∧
      List.Forall₂ (fun p s => p < 2 ^ 64 ∧ stringStores p s ⊆ strings) l.argvPtrs
        ((argv.take n).map (cut ARGV_MAXLEN)) ∧
      List.Forall₂ (fun p s => p < 2 ^ 64 ∧ stringStores p s ⊆ strings) l.envpPtrs
        ((envp.take m).map (cut ENVP_MAXLEN)) ∧
      (∃ len, Places t host len n m l.strs l.rand sp ∧
        Consecutive l.strs strings (l.strs + len)) ∧
      stackInit t argc argv envp host =
        (sp, strings ++ (l.rand, host.random.toList) :: blockStores sp n (l.argvPtrs ++ [0])
          (l.envpPtrs ++ [0]) ((l.auxv t host).flatMap Auxv.words)) := by
  obtain ⟨n, hn, ha⟩ := @countArgv_spec t argc argv h
  obtain ⟨hnle, hncost⟩ := le_of_mem_fitting hn.1
  rw [Nat.zero_add] at hncost
  obtain ⟨m, hm, he⟩ := @countEnvp_spec t
    ⟨n, cost ARGV_MAXLEN (argv.take n), area ARGV_MAXLEN (argv.take n)⟩ envp h hncost
  obtain ⟨hmle, hmcost⟩ := le_of_mem_fitting hm.1
  dsimp only at hm hmcost
  have hbudget : area ARGV_MAXLEN (argv.take n) + area ENVP_MAXLEN (envp.take m) + 8 * (n + m) ≤
      t.stackSize - fixed := by
    rw [cost, cost, List.length_take, List.length_take, Nat.min_eq_left hnle,
      Nat.min_eq_left hmle] at hmcost
    omega
  have hp := @places n t host _ m h hbudget
  rw [stackInit]
  simp only [ha, he]
  generalize truncp (sub64 (t.stackTop host) _) 16 = strs at hp ⊢
  generalize sub64 strs 16 = rand at hp ⊢
  generalize truncp _ 16 = sp at hp ⊢
  have hfits := t.fits
  have hstrs := hp.strs_le
  obtain ⟨hcount, hrow, hargv⟩ := @copyStrings_spec ARGV_MAXLEN 0 n strs argv hnle (by omega)
  obtain ⟨-, hrow', henvp⟩ := @copyStrings_spec ENVP_MAXLEN
    (copyStrings strs ARGV_MAXLEN n argv 0).count m strs envp hmle (by omega)
  generalize hc : copyStrings strs ARGV_MAXLEN n argv 0 = c at hcount hrow hargv hrow' henvp ⊢
  generalize hc' : copyStrings strs ENVP_MAXLEN m envp c.count = c' at hrow' henvp ⊢
  refine ⟨n, m, ⟨c.ptrs, c'.ptrs, strs, rand⟩, c.stores ++ c'.stores, sp, hn, hm, ?_, ?_,
    ⟨_, hp, ?_⟩, ?_⟩
  · refine hargv.imp ?_
    rintro p s ⟨hlt, hsub⟩
    exact ⟨hlt, List.Subset.trans hsub (List.subset_append_left _ _)⟩
  · refine henvp.imp ?_
    rintro p s ⟨hlt, hsub⟩
    exact ⟨hlt, List.Subset.trans hsub (List.subset_append_right _ _)⟩
  · have hall := hrow.append (by rwa [hcount, Nat.zero_add] at hrow')
    rwa [Nat.add_assoc] at hall
  · have hlen := hargv.length_eq
    have hlen' := henvp.length_eq
    rw [List.length_map, List.length_take, Nat.min_eq_left hnle] at hlen
    rw [List.length_map, List.length_take, Nat.min_eq_left hmle] at hlen'
    have hblock := hp.block_le
    have hrand := hp.rand_eq
    have hptr : sizeofLfiptr = 8 := rfl
    rw [blockSize, hptr] at hblock
    rw [hptr]
    simp (disch := omega) only [add64_eq]
    simp only [blockStores, List.length_append, List.length_singleton, hlen, hlen',
      Nat.mul_comm 8, Layout.auxv]

theorem length_words {l : Layout} (hn : l.argvPtrs.length = n) (hm : l.envpPtrs.length = m) :
    8 * (l.words t host).length = blockSize n m := by
  have haux : sizeofAuxvList = 304 := rfl
  have hptr : sizeofLfiptr = 8 := rfl
  rw [Layout.words, blockSize, haux, hptr, List.length_cons, List.length_append,
    List.length_append, List.length_append, List.length_append, Layout.auxv, length_auxvWords]
  simp only [List.length_singleton]
  omega

theorem auxvList_null (t : LFILinuxThread) (host : HostAnswers) (execfn randStart : Nat) :
    ∃ auxv, auxvList t host execfn randStart = auxv ++ [⟨LINUX_AT_NULL, 0⟩] ∧
      ∀ a ∈ auxv, a.a_type ≠ LINUX_AT_NULL := by
  refine ⟨(auxvList t host execfn randStart).dropLast, rfl, ?_⟩
  have htypes : (auxvList t host execfn randStart).dropLast.all
      (fun a => a.a_type ≠ LINUX_AT_NULL) = true := rfl
  intro a ha
  simpa using List.all_eq_true.mp htypes a ha

/-- Whatever the strings, their number and the random offset are, the stack is well
formed, and nothing is stored outside of it. -/
theorem stackInit_wellFormed (h : fixed < t.stackSize) (argc : Int) (argv envp : List Bytes)
    (host : HostAnswers) (F : Nat → UInt8) :
    (∀ s ∈ (stackInit t argc argv envp host).2,
      t.stack ≤ s.1 ∧ s.stop ≤ t.stack + t.stackSize) ∧
    ∃ n m l, InitialStack t argc argv envp host n m l (stackInit t argc argv envp host).1
      (run F (stackInit t argc argv envp host).2) := by
  obtain ⟨n, m, l, strings, sp, hn, hm, hargv, henvp, ⟨len, hp, hrow⟩, heq⟩ :=
    stackInit_eq h argc argv envp host
  have hfits := t.fits
  have hlen := hargv.length_eq
  have hlen' := henvp.length_eq
  rw [List.length_map, List.length_take, Nat.min_eq_left (le_of_mem_fitting hn.1).1] at hlen
  rw [List.length_map, List.length_take, Nat.min_eq_left (le_of_mem_fitting hm.1).1] at hlen'
  have hblock := consecutive_blockStores sp n (l.argvPtrs ++ [0]) (l.envpPtrs ++ [0])
    ((l.auxv t host).flatMap Auxv.words)
  have hbytes := flatMap_blockStores sp n (l.argvPtrs ++ [0]) (l.envpPtrs ++ [0])
    ((l.auxv t host).flatMap Auxv.words)
  rw [heq]
  generalize blockStores sp n _ _ _ = block at hblock hbytes ⊢
  rw [← hlen] at hblock hbytes
  change Consecutive sp block (sp + 8 * (l.words t host).length) at hblock
  change _ = wordBytes (l.words t host) at hbytes
  have hwords := @length_words n t host m l hlen hlen'
  have hstrs := hp.strs_le
  have hrand := hp.rand_eq
  have hblock_le := hp.block_le
  have hle := hp.le_sp
  rw [← hwords] at hblock_le
  have hrandlen : host.random.toList.length = 16 := by simp
  generalize hr : (l.rand, host.random.toList) = random
  -- The block ends below the random bytes, and these end where the strings start.
  have hall : (strings ++ random :: block).Pairwise Apart := by
    rw [List.pairwise_append, List.pairwise_cons]
    refine ⟨hrow.pairwise, ⟨?_, hblock.pairwise⟩, ?_⟩
    · subst hr
      intro s hs
      have hin := (hblock.inside hs).2
      exact .inr (hin.trans hblock_le)
    · intro s hs u hu
      have hin := (hrow.inside hs).1
      refine .inr (le_trans ?_ hin)
      rcases List.mem_cons.mp hu with rfl | hu
      · subst hr
        rw [Store.stop, hrandlen]
        omega
      · have hin' := (hblock.inside hu).2
        omega
  have hstrings : ∀ s ∈ strings, l.strs ≤ s.1 ∧ s.stop ≤ t.stack + t.stackSize := by
    intro s hs
    have hin := hrow.inside hs
    omega
  refine ⟨?_, n, m, l, ?_⟩
  · intro s hs
    rcases List.mem_append.mp hs with hs | hs
    · have hin := hstrings s hs
      omega
    · rcases List.mem_cons.mp hs with rfl | hs
      · subst hr
        rw [Store.stop, hrandlen]
        omega
      · have hin := hblock.inside hs
        omega
  · refine ⟨hn, hm, hp.aligned, ?_, ?_, ?_, ?_, auxvList_null _ _ _ _, hblock_le, hrand.le⟩
    · refine wordsAt_eq (Layout.words_lt ?_ (lt_of_mem_ptrs hargv) (lt_of_mem_ptrs henvp)) ?_
      · have hptr : sizeofLfiptr = 8 := rfl
        rw [blockSize, hptr] at hwords
        omega
      · rw [← hbytes, ← @bytesAt_run_consecutive F _ _ _ _ hall hblock
          fun s hs => by simp [hs]]
        rw [Nat.add_sub_cancel_left]
    · exact .of_stores hall (List.subset_append_left _ _) hstrings hargv
    · exact .of_stores hall (List.subset_append_left _ _) hstrings henvp
    · have hmem := @bytesAt_run_of_mem F _ _ hall (show random ∈ _ by simp)
      subst hr
      rw [hrandlen] at hmem
      exact hmem

/-- A thread with a stack of four pages. -/
def smallThread : LFILinuxThread where
  stack := 65536
  stackSize := 16384
  elfinfo := ⟨0, 0, 0, 0, 0, 0, 0, 0⟩
  opts := ⟨4096, 2 ^ 32, false, false, false⟩
  fits := by decide

/-- `ab -v`. -/
def smallArgs : List (List UInt8) := [[97, 98], [45, 118]]

/-- `A=1` and `B=`. -/
def smallEnv : List (List UInt8) := [[65, 61, 49], [66, 61]]

theorem smallThread_stack :
    (∀ s ∈ (stackInit smallThread 2 smallArgs smallEnv ⟨0, .replicate 16 0, 0, 0⟩).2,
      smallThread.stack ≤ s.1 ∧ s.stop ≤ smallThread.stack + smallThread.stackSize) ∧
    ∃ n m l, InitialStack smallThread 2 smallArgs smallEnv ⟨0, .replicate 16 0, 0, 0⟩ n m l
      (stackInit smallThread 2 smallArgs smallEnv ⟨0, .replicate 16 0, 0, 0⟩).1
      (run (fun _ => 0) (stackInit smallThread 2 smallArgs smallEnv
        ⟨0, .replicate 16 0, 0, 0⟩).2) :=
  stackInit_wellFormed (by decide) 2 smallArgs smallEnv ⟨0, .replicate 16 0, 0, 0⟩ fun _ => 0

end LfiRuntime.Stack
