import LfiRuntime.Lib.FirstFit

/-!
The extent allocator of `extalloc.c`: one bit a chunk, most significant bit of
a byte first.
-/

namespace LfiRuntime.Boxmap

open LfiRuntime.FirstFit

abbrev Bitvec := List (BitVec 8)

structure ExtAlloc where
  base : Nat
  size : Nat
  chunksize : Nat
  bitvec : Bitvec
deriving DecidableEq, Repr

/-- `base` and `size` are multiples of `chunksize`, as the source asserts. -/
def extallocNew (base size chunksize : Nat) : ExtAlloc :=
  let base := base / chunksize
  let size := size / chunksize
  ⟨base, size, chunksize, List.replicate (size / 8 + 1) 0⟩

def bit (bitvec : Bitvec) (bit : Nat) : Nat :=
  let byte := bit / 8
  let bitOff := 7 - bit % 8
  ((bitvec.getD byte 0 >>> bitOff) &&& 1).toNat

/-- The loop of `bitvec_find_zeroes` from bit `i` on, `rest` bits before the
end: the last `count` bits were zeroes. -/
def findZeroesFrom (bitvec : Bitvec) (n : Nat) : Nat → Nat → Nat → Option Nat
  | 0, _, _ => none
  | rest + 1, i, count =>
      if bit bitvec i = 0 then
        if count + 1 = n then some (i + 1 - n) else findZeroesFrom bitvec n rest (i + 1) (count + 1)
      else findZeroesFrom bitvec n rest (i + 1) 0

/-- `none` is the result -1. -/
def bitvecFindZeroes (bitvec : Bitvec) (nbits n : Nat) : Option Nat :=
  if n = 0 ∨ nbits = 0 then none else findZeroesFrom bitvec n nbits 0 0

/-- One turn of the loop of `bitvec_set`. -/
def setBit (val : Bool) (bitvec : Bitvec) (bit : Nat) : Bitvec :=
  let byte := bit / 8
  let bitOff := 7 - bit % 8
  bitvec.modify byte fun b => if val then b ||| 1#8 <<< bitOff else b &&& ~~~(1#8 <<< bitOff)

def bitvecSet (bitvec : Bitvec) (start length : Nat) (val : Bool) : Bitvec :=
  (List.range length).foldl (fun v i => setBit val v (start + i)) bitvec

/-- The sum is one of 64 bits. -/
def chunksCeil (n chunksize : Nat) : Nat := (n + chunksize - 1) % 2 ^ 64 / chunksize

def extallocAlloc (a : ExtAlloc) (n : Nat) : Nat × ExtAlloc :=
  let n := chunksCeil n a.chunksize
  match bitvecFindZeroes a.bitvec a.size n with
  | none => (0, a)
  | some idx =>
      ((a.base + idx) * a.chunksize % 2 ^ 64, { a with bitvec := bitvecSet a.bitvec idx n true })

def extallocFree (a : ExtAlloc) (atAddr n : Nat) : ExtAlloc :=
  let atAddr := atAddr / a.chunksize
  let n := chunksCeil n a.chunksize
  { a with bitvec := bitvecSet a.bitvec (atAddr - a.base) n false }

/-! The bits of a bit vector. -/

section

variable {v : Bitvec} {i j b start length : Nat} {val : Bool}

theorem bit_eq_getLsbD (v : Bitvec) (i : Nat) :
    bit v i = ((v.getD (i / 8) 0).getLsbD (7 - i % 8)).toNat := by
  simp [bit, BitVec.getLsbD, Nat.shiftRight_eq_div_pow, Nat.toNat_testBit]

theorem bit_eq_zero_or_one (v : Bitvec) (i : Nat) : bit v i = 0 ∨ bit v i = 1 := by
  rw [bit_eq_getLsbD]
  cases (v.getD (i / 8) 0).getLsbD (7 - i % 8) <;> simp

@[simp] theorem length_setBit : (setBit val v b).length = v.length := by
  simp [setBit]

@[simp] theorem length_bitvecSet : (bitvecSet v start length val).length = v.length := by
  induction length with
  | zero => rfl
  | succ length ih =>
      rw [bitvecSet, List.range_succ, List.foldl_append, List.foldl_cons, List.foldl_nil,
        length_setBit]
      exact ih

theorem getLsbD_one_shiftLeft {j k : Nat} (hj : j < 8) :
    (1#8 <<< k).getLsbD j = decide (j = k) := by
  rw [BitVec.getLsbD_shiftLeft, BitVec.getLsbD_one, Bool.eq_iff_iff]
  simp
  omega

theorem bit_setBit (hb : b / 8 < v.length) (i : Nat) :
    bit (setBit val v b) i = if i = b then val.toNat else bit v i := by
  rw [bit_eq_getLsbD, bit_eq_getLsbD, setBit]
  by_cases hbyte : i / 8 = b / 8
  · have hlt : 7 - i % 8 < 8 := by omega
    have hoff : 7 - i % 8 = 7 - b % 8 ↔ i = b := by omega
    simp only [List.getD_eq_getElem?_getD, hbyte, List.getElem?_modify_eq,
      List.getElem?_eq_getElem hb, Option.getD_some]
    cases val with
    | true =>
        simp only [Option.map_eq_map, Option.map_some, Option.getD_some, if_true,
          BitVec.getLsbD_or, getLsbD_one_shiftLeft hlt, hoff]
        by_cases hib : i = b <;> simp [hib]
    | false =>
        simp only [Option.map_eq_map, Option.map_some, Option.getD_some, Bool.false_eq_true,
          if_false, BitVec.getLsbD_and, BitVec.getLsbD_not, getLsbD_one_shiftLeft hlt, hoff]
        by_cases hib : i = b <;> simp [hib, hlt]
  · have hne : i ≠ b := fun heq => hbyte (heq ▸ rfl)
    rw [if_neg hne]
    simp only [List.getD_eq_getElem?_getD]
    rw [List.getElem?_modify_ne]
    exact fun heq => hbyte heq.symm

theorem bit_bitvecSet (hroom : start + length ≤ 8 * v.length) (i : Nat) :
    bit (bitvecSet v start length val) i =
      if start ≤ i ∧ i < start + length then val.toNat else bit v i := by
  induction length with
  | zero =>
      rw [if_neg (by omega)]
      rfl
  | succ length ih =>
      have hset : bitvecSet v start (length + 1) val =
          setBit val (bitvecSet v start length val) (start + length) := by
        simp [bitvecSet, List.range_succ]
      rw [hset, bit_setBit (by rw [length_bitvecSet]; omega), ih (by omega)]
      by_cases hlast : i = start + length
      · rw [if_pos hlast, if_pos (by omega)]
      · rw [if_neg hlast]
        by_cases hin : start ≤ i ∧ i < start + length
        · rw [if_pos hin, if_pos (by omega)]
        · rw [if_neg hin, if_neg (by omega)]

theorem bitvec_ext {w : Bitvec} (hlen : v.length = w.length) (h : ∀ i, bit v i = bit w i) :
    v = w := by
  apply List.ext_getElem hlen
  intro k hk hk'
  apply BitVec.eq_of_getLsbD_eq
  intro j hj
  -- bit `j` of byte `k`, counted from the other end
  have hbit := h (8 * k + (7 - j))
  have hbyte : (8 * k + (7 - j)) / 8 = k := by omega
  have hoff : 7 - (8 * k + (7 - j)) % 8 = j := by omega
  rw [bit_eq_getLsbD, bit_eq_getLsbD, hbyte, hoff] at hbit
  simp only [List.getD_eq_getElem?_getD, List.getElem?_eq_getElem hk, List.getElem?_eq_getElem hk',
    Option.getD_some] at hbit
  have hinj : ∀ b b' : Bool, b.toNat = b'.toNat → b = b' := by decide
  exact hinj _ _ hbit

/-- Bits that were zeroes are so again once they are cleared. -/
theorem bitvecSet_false_true (hroom : start + length ≤ 8 * v.length)
    (hzero : ∀ j, start ≤ j → j < start + length → bit v j = 0) :
    bitvecSet (bitvecSet v start length true) start length false = v := by
  apply bitvec_ext
  · rw [length_bitvecSet, length_bitvecSet]
  · intro j
    rw [bit_bitvecSet (by rwa [length_bitvecSet])]
    split
    · rename_i hin
      exact (hzero j hin.1 hin.2).symm
    · rename_i hout
      rw [bit_bitvecSet hroom, if_neg hout]

end

/-- Bit `i` stands for a chunk that is in use. -/
def Set1 (v : Bitvec) (i : Nat) : Prop := bit v i = 1

instance (v : Bitvec) (i : Nat) : Decidable (Set1 v i) := inferInstanceAs (Decidable (_ = _))

theorem not_set1_iff {v : Bitvec} {i : Nat} : ¬Set1 v i ↔ bit v i = 0 := by
  rcases bit_eq_zero_or_one v i with h | h <;> simp [Set1, h]

section

variable {v : Bitvec} {n : Nat}

/-- The search from bit `i` on, when no run begins before the `count` zeroes
that end at `i`. -/
theorem findZeroesFrom_spec {size rest i count : Nat} (hrest : i + rest = size)
    (hcount : count ≤ i) (hlt : count < n)
    (hzero : ∀ j, i - count ≤ j → j < i → ¬Set1 v j)
    (hnone : ∀ s, s < i - count → ¬IsRun (Set1 v) size n s) :
    (∃ s, findZeroesFrom v n rest i count = some s ∧ IsFirstRun (Set1 v) size n s) ∨
      findZeroesFrom v n rest i count = none ∧ ∀ s, ¬IsRun (Set1 v) size n s := by
  induction rest generalizing i count with
  | zero =>
      refine .inr ⟨rfl, fun s hrun => ?_⟩
      have hend := hrun.1
      exact hnone s (by omega) hrun
  | succ rest ih =>
      rw [findZeroesFrom]
      split
      · rename_i hbit
        have hzero' : ∀ j, i - count ≤ j → j < i + 1 → ¬Set1 v j := by
          intro j hlo hhi
          by_cases hj : j = i
          · exact hj ▸ not_set1_iff.mpr hbit
          · exact hzero j hlo (by omega)
        split
        · rename_i hfound
          refine .inl ⟨_, rfl, ⟨by omega, fun j hlo hhi => ?_⟩, fun s hs => ?_⟩
          · exact hzero' j (by omega) (by omega)
          · exact hnone s (by omega)
        · rename_i hshort
          have hstart : i + 1 - (count + 1) = i - count := by omega
          exact ih (by omega) (by omega) (by omega) (hstart ▸ hzero') (hstart ▸ hnone)
      · rename_i hbit
        have hused : Set1 v i := by
          by_contra hfree
          exact hbit (not_set1_iff.mp hfree)
        refine ih (by omega) (by omega) (by omega) (fun j _ _ => by omega) fun s hs => ?_
        by_cases hbefore : s < i - count
        · exact hnone s hbefore
        · exact not_isRun_of_used hused (by omega) (by omega)

/-- The search finds the lowest run, and fails when there is none. -/
theorem bitvecFindZeroes_spec (hn : 0 < n) (size : Nat) :
    (∃ s, bitvecFindZeroes v size n = some s ∧ IsFirstRun (Set1 v) size n s) ∨
      bitvecFindZeroes v size n = none ∧ ∀ s, ¬IsRun (Set1 v) size n s := by
  rw [bitvecFindZeroes]
  split
  · rename_i hempty
    refine .inr ⟨rfl, fun s hrun => ?_⟩
    have hend := hrun.1
    omega
  · exact findZeroesFrom_spec (Nat.zero_add _) le_rfl hn (fun j _ hj => absurd hj (by omega))
      fun s hs => absurd hs (by omega)

end

theorem chunksCeil_mul {k chunksize : Nat} (hc : 0 < chunksize)
    (hfits : k * chunksize + chunksize ≤ 2 ^ 64) : chunksCeil (k * chunksize) chunksize = k := by
  rw [chunksCeil, Nat.mod_eq_of_lt (by omega), Nat.mul_comm,
    show chunksize * k + chunksize - 1 = chunksize * k + (chunksize - 1) by omega,
    Nat.mul_add_div hc, Nat.div_eq_of_lt (by omega), Nat.add_zero]

/-- Where the sum of `chunks_ceil` wraps, it asks for no chunk. -/
theorem chunksCeil_mul_of_wrap {k chunksize : Nat} (hlt : k * chunksize < 2 ^ 64)
    (hc : chunksize ≤ 2 ^ 64) (hwrap : 2 ^ 64 < k * chunksize + chunksize) :
    chunksCeil (k * chunksize) chunksize = 0 := by
  have hsub : (k * chunksize + chunksize - 1) % 2 ^ 64 =
      k * chunksize + chunksize - 1 - 2 ^ 64 := by
    rw [Nat.mod_eq_sub_mod (by omega), Nat.mod_eq_of_lt (by omega)]
  rw [chunksCeil, hsub]
  exact Nat.div_eq_of_lt (by omega)

end LfiRuntime.Boxmap
