import LfiRuntime.Lib.Bytes

/-!
Stores of strings of bytes to a memory, one after the other, and what the memory holds
afterwards where no two of them overlap.
-/

namespace LfiRuntime.Stores

open LfiRuntime.ByteString
open LfiRuntime.PagedMemory

/-- An address, and the bytes that are stored there. -/
abbrev Store := Nat × Bytes

def Store.stop (s : Store) : Nat := s.1 + s.2.length

def run (F : Nat → UInt8) (stores : List Store) : Nat → UInt8 :=
  stores.foldl (fun F s => patch F s.1 s.2) F

def Apart (s t : Store) : Prop := s.stop ≤ t.1 ∨ t.stop ≤ s.1

/-- Each store starts where the one before it ends. -/
inductive Consecutive : Nat → List Store → Nat → Prop
  | nil (a : Nat) : Consecutive a [] a
  | cons {a b : Nat} {bytes : Bytes} {l : List Store} (h : Consecutive (a + bytes.length) l b) :
      Consecutive a ((a, bytes) :: l) b

variable {F : Nat → UInt8} {s t : Store} {l l' : List Store} {a b c n : Nat} {words : List Nat}

@[simp] theorem run_append (F : Nat → UInt8) (l l' : List Store) :
    run F (l ++ l') = run (run F l) l' := List.foldl_append

theorem Apart.symm (h : Apart s t) : Apart t s := Or.symm h

/-- Stores elsewhere keep a range. -/
theorem bytesAt_run (h : ∀ s ∈ l, s.stop ≤ a ∨ a + n ≤ s.1) :
    bytesAt (run F l) a n = bytesAt F a n := by
  induction l generalizing F with
  | nil => rfl
  | cons s l ih =>
      have hs := h s (by simp)
      rw [Store.stop] at hs
      refine (ih fun t ht => h t (by simp [ht])).trans (bytesAt_patch_of_not ?_)
      exact hs.symm

/-- What is stored stays if no two stores overlap. -/
theorem bytesAt_run_of_mem (h : l.Pairwise Apart) (hs : s ∈ l) :
    bytesAt (run F l) s.1 s.2.length = s.2 := by
  induction l generalizing F with
  | nil => cases hs
  | cons t l ih =>
      obtain ⟨hapart, hl⟩ := List.pairwise_cons.mp h
      rcases List.mem_cons.mp hs with rfl | hs
      · change bytesAt (run (patch F s.1 s.2) l) s.1 s.2.length = s.2
        rw [bytesAt_run, bytesAt_patch_self]
        intro t ht
        exact (hapart t ht).symm
      · exact ih hl hs

namespace Consecutive

theorem le (h : Consecutive a l b) : a ≤ b := by
  induction h with
  | nil a => exact le_rfl
  | cons _ ih => omega

theorem inside (h : Consecutive a l b) (hs : s ∈ l) : a ≤ s.1 ∧ s.stop ≤ b := by
  induction h with
  | nil a => cases hs
  | @cons a b bytes l h ih =>
      rcases List.mem_cons.mp hs with rfl | hs
      · exact ⟨le_rfl, h.le⟩
      · obtain ⟨hlo, hhi⟩ := ih hs
        exact ⟨by omega, hhi⟩

theorem append (h : Consecutive a l b) (h' : Consecutive b l' c) : Consecutive a (l ++ l') c := by
  induction h with
  | nil a => exact h'
  | cons _ ih => exact .cons (ih h')

theorem pairwise (h : Consecutive a l b) : l.Pairwise Apart := by
  induction h with
  | nil a => exact .nil
  | @cons a b bytes l h ih =>
      refine List.pairwise_cons.mpr ⟨fun t ht => .inl ?_, ih⟩
      exact (h.inside ht).1

end Consecutive

theorem bytesAt_append (F : Nat → UInt8) (a m n : Nat) :
    bytesAt F a (m + n) = bytesAt F a m ++ bytesAt F (a + m) n := by
  simp only [bytesAt, List.range_add, List.map_append, List.map_map]
  congr 1
  apply List.map_congr_left
  intro i _
  simp [Nat.add_assoc]

/-- What stores in a row have stored is read back as one string. -/
theorem bytesAt_run_consecutive (h : l.Pairwise Apart) (hl : Consecutive a l' b)
    (hsub : ∀ s ∈ l', s ∈ l) : bytesAt (run F l) a (b - a) = l'.flatMap Prod.snd := by
  induction hl with
  | nil a => simp [bytesAt]
  | @cons a b bytes l' hl ih =>
      have hle := hl.le
      have hhead := @bytesAt_run_of_mem F _ _ h (hsub _ List.mem_cons_self)
      have hrest := ih fun s hs => hsub s (List.mem_cons_of_mem _ hs)
      rw [List.flatMap_cons, show b - a = bytes.length + (b - (a + bytes.length)) by omega,
        bytesAt_append, hrest]
      exact congrArg (· ++ _) hhead

/-! Words of eight bytes. -/

def wordBytes (words : List Nat) : Bytes := words.flatMap (leBytes 8)

/-- The `n` words from `a` on. -/
def wordsAt (F : Nat → UInt8) (a n : Nat) : List Nat :=
  (List.range n).map fun i => ofBytes (bytesAt F (a + 8 * i) 8)

@[simp] theorem length_wordBytes (words : List Nat) :
    (wordBytes words).length = 8 * words.length := by
  induction words with
  | nil => rfl
  | cons w words ih =>
      rw [wordBytes, List.flatMap_cons, List.length_append, length_leBytes, ← wordBytes, ih,
        List.length_cons]
      omega

@[simp] theorem wordBytes_append (words words' : List Nat) :
    wordBytes (words ++ words') = wordBytes words ++ wordBytes words' := List.flatMap_append

theorem wordsAt_succ (F : Nat → UInt8) (a n : Nat) :
    wordsAt F a (n + 1) = ofBytes (bytesAt F a 8) :: wordsAt F (a + 8) n := by
  rw [wordsAt, List.range_succ_eq_map, List.map_cons, List.map_map, Nat.mul_zero, Nat.add_zero,
    wordsAt]
  congr 1
  apply List.map_congr_left
  intro i _
  simp only [Function.comp_apply, Nat.succ_eq_add_one]
  rw [show a + 8 * (i + 1) = a + 8 + 8 * i by omega]

/-- Words are read back as they were stored. -/
theorem wordsAt_eq (hlt : ∀ w ∈ words, w < 256 ^ 8)
    (h : bytesAt F a (8 * words.length) = wordBytes words) : wordsAt F a words.length = words := by
  induction words generalizing a with
  | nil => rfl
  | cons w words ih =>
      rw [List.length_cons, Nat.mul_succ, Nat.add_comm, bytesAt_append, wordBytes,
        List.flatMap_cons, ← wordBytes] at h
      obtain ⟨hhead, htail⟩ := List.append_inj h (by simp [bytesAt])
      have hrest := ih (fun w hw => hlt w (by simp [hw])) htail
      rw [List.length_cons, wordsAt_succ, hhead, ofBytes_leBytes,
        Nat.mod_eq_of_lt (hlt w (by simp)), hrest]

end LfiRuntime.Stores
