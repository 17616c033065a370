import Mathlib.Tactic

/-!
`align.h`: addresses of 64 bits rounded with a mask.
-/

namespace LfiRuntime.Align

def truncp (addr align : Nat) : Nat :=
  let alignMask := BitVec.ofNat 64 align - 1
  (BitVec.ofNat 64 addr &&& ~~~alignMask).toNat

def ceilp (addr align : Nat) : Nat :=
  let alignMask := BitVec.ofNat 64 align - 1
  ((BitVec.ofNat 64 addr + alignMask) &&& ~~~alignMask).toNat

/-- A power of two that an address can be aligned to. -/
def IsAlign (align : Nat) : Prop := ∃ k < 64, align = 2 ^ k

variable {addr align n : Nat}

theorem IsAlign.pos (h : IsAlign align) : 0 < align := by
  obtain ⟨k, -, rfl⟩ := h
  exact Nat.two_pow_pos k

theorem IsAlign.lt (h : IsAlign align) : align < 2 ^ 64 := by
  obtain ⟨k, hk, rfl⟩ := h
  exact Nat.pow_lt_pow_right (by decide) hk

theorem IsAlign.dvd (h : IsAlign align) : align ∣ 2 ^ 64 := by
  obtain ⟨k, hk, rfl⟩ := h
  exact Nat.pow_dvd_pow 2 hk.le

/-- Between the last multiple and the end there is room for one more. -/
theorem IsAlign.add_le (h : IsAlign align) (hdvd : align ∣ addr) (hlt : addr < 2 ^ 64) :
    addr + align ≤ 2 ^ 64 := by
  have hle := Nat.le_of_dvd (Nat.sub_pos_of_lt hlt) (Nat.dvd_sub h.dvd hdvd)
  omega

/-- The test for a power of two. -/
theorem isAlign_of_mask (hne : align ≠ 0) (hlt : align < 2 ^ 64)
    (hmask : align &&& (align - 1) = 0) : IsAlign align := by
  obtain ⟨k, rfl⟩ := (Nat.and_sub_one_eq_zero_iff_isPowerOfTwo hne).mp hmask
  exact ⟨k, (Nat.pow_lt_pow_iff_right (by decide)).mp hlt, rfl⟩

theorem IsAlign.mask (h : IsAlign align) : align &&& (align - 1) = 0 := by
  have hpos := h.pos
  obtain ⟨k, -, rfl⟩ := h
  exact (Nat.and_sub_one_eq_zero_iff_isPowerOfTwo hpos.ne').mpr ⟨k, rfl⟩

theorem toNat_mask (h : IsAlign align) : (BitVec.ofNat 64 align - 1).toNat = align - 1 := by
  have hpos := h.pos
  have hmod : (BitVec.ofNat 64 align).toNat = align := by
    rw [BitVec.toNat_ofNat, Nat.mod_eq_of_lt h.lt]
  rw [BitVec.toNat_sub_of_le]
  · rw [hmod]
    rfl
  · rw [BitVec.le_def, hmod]
    exact hpos

theorem toNat_and_not_mask (h : IsAlign align) (x : BitVec 64) :
    (x &&& ~~~(BitVec.ofNat 64 align - 1)).toNat = x.toNat - x.toNat % align := by
  have hmask := toNat_mask h
  obtain ⟨k, hk, rfl⟩ := h
  have hdiv : x.toNat - x.toNat % 2 ^ k = 2 ^ k * (x.toNat / 2 ^ k) := by
    have hmod := Nat.div_add_mod x.toNat (2 ^ k)
    omega
  rw [hdiv]
  apply Nat.eq_of_testBit_eq
  intro i
  rw [Nat.testBit_two_pow_mul, Nat.testBit_div_two_pow, BitVec.testBit_toNat, BitVec.getLsbD_and,
    BitVec.getLsbD_not, ← BitVec.testBit_toNat (BitVec.ofNat 64 (2 ^ k) - 1), hmask,
    Nat.testBit_two_pow_sub_one]
  by_cases hi : i < 64
  · rcases Nat.lt_or_ge i k with hlt | hge
    · simp [hlt]
    · simp [hi, hge, Nat.sub_add_cancel hge, BitVec.testBit_toNat]
  · have hge : k ≤ i := by omega
    rw [BitVec.getLsbD_of_ge x i (by omega)]
    simp [hge, BitVec.testBit_toNat, BitVec.getLsbD_of_ge x i (by omega)]

theorem truncp_eq (h : IsAlign align) (haddr : addr < 2 ^ 64) :
    truncp addr align = addr - addr % align := by
  rw [truncp, toNat_and_not_mask h, BitVec.toNat_ofNat, Nat.mod_eq_of_lt haddr]

theorem ceilp_eq (h : IsAlign align) :
    ceilp addr align =
      (addr + (align - 1)) % 2 ^ 64 - (addr + (align - 1)) % 2 ^ 64 % align := by
  rw [ceilp, toNat_and_not_mask h, BitVec.toNat_add, toNat_mask h, BitVec.toNat_ofNat,
    Nat.mod_add_mod]

/-- Where the sum wraps, the result is 0. -/
theorem ceilp_of_ge (h : IsAlign align) (haddr : addr < 2 ^ 64) (hge : 2 ^ 64 ≤ addr + (align - 1)) :
    ceilp addr align = 0 := by
  have hlt := h.lt
  rw [ceilp_eq h, show (addr + (align - 1)) % 2 ^ 64 = addr + (align - 1) - 2 ^ 64 by omega,
    Nat.mod_eq_of_lt (by omega), Nat.sub_self]

/-- Where the sum does not wrap, the address is rounded up. -/
theorem ceilp_of_lt (h : IsAlign align) (hlt : addr + align - 1 < 2 ^ 64) :
    ceilp addr align = (addr + align - 1) / align * align := by
  have hpos := h.pos
  rw [ceilp_eq h, ← Nat.add_sub_assoc hpos, Nat.mod_eq_of_lt hlt]
  have hmod := Nat.div_add_mod' (addr + align - 1) align
  omega

/-- Below a multiple the address is rounded up to the next one. -/
theorem ceilp_spec (h : IsAlign align) (hle : addr ≤ n) (hdvd : align ∣ n) (hlt : n < 2 ^ 64) :
    ceilp addr align = (addr + align - 1) / align * align ∧ addr ≤ ceilp addr align ∧
      ceilp addr align < addr + align ∧ ceilp addr align ≤ n := by
  have hpos := h.pos
  have hroom := h.add_le hdvd hlt
  have heq := ceilp_of_lt h (show addr + align - 1 < 2 ^ 64 by omega)
  have hmod := Nat.div_add_mod' (addr + align - 1) align
  have hrest := Nat.mod_lt (addr + align - 1) hpos
  refine ⟨heq, by omega, by omega, ?_⟩
  obtain ⟨q, rfl⟩ := hdvd
  rw [heq, Nat.mul_comm align q]
  refine Nat.mul_le_mul_right _ (Nat.lt_succ_iff.mp ((Nat.div_lt_iff_lt_mul hpos).mpr ?_))
  rw [Nat.succ_mul, Nat.mul_comm q]
  omega

theorem dvd_truncp (h : IsAlign align) (haddr : addr < 2 ^ 64) : align ∣ truncp addr align := by
  rw [truncp_eq h haddr]
  exact Nat.dvd_sub_mod addr

theorem truncp_le (h : IsAlign align) (haddr : addr < 2 ^ 64) : truncp addr align ≤ addr := by
  rw [truncp_eq h haddr]
  exact Nat.sub_le _ _

theorem lt_truncp_add (h : IsAlign align) (haddr : addr < 2 ^ 64) :
    addr < truncp addr align + align := by
  have hmod := Nat.mod_lt addr h.pos
  rw [truncp_eq h haddr]
  omega

theorem dvd_ceilp (h : IsAlign align) : align ∣ ceilp addr align := by
  rw [ceilp_eq h]
  exact Nat.dvd_sub_mod _

end LfiRuntime.Align
