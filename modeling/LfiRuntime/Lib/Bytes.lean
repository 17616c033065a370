import Mathlib.Data.List.TakeWhile
import LfiRuntime.Lib.MemoryWords

/-!
Strings of bytes that are read piece by piece, where a read that leaves the string
has no result.
-/

namespace LfiRuntime.ByteString

open LfiRuntime.PagedMemory

abbrev Bytes := List UInt8

/-- The `n` bytes from `off` on. -/
def slice (bs : Bytes) (off n : Nat) : Option Bytes :=
  if off + n ≤ bs.length then some ((bs.drop off).take n) else none

/-- The number of `n` bytes at `off`, lowest byte first. -/
def field (bs : Bytes) (off n : Nat) : Nat := ofBytes ((bs.drop off).take n)

/-- `memchr` for a zero among the `n` bytes from `off` on. What is behind the zero is
not read. -/
def hasZero (bs : Bytes) : Nat → Nat → Option Bool
  | _, 0 => some false
  | off, n + 1 => bs[off]?.bind fun b => if b = 0 then some true else hasZero bs (off + 1) n

/-- `strcmp(bs + off, s) == 0`, where `s` has a zero behind its last byte. -/
def sameString (bs : Bytes) : Nat → Bytes → Option Bool
  | off, [] => bs[off]?.map (decide <| · = 0)
  | off, c :: s =>
    bs[off]?.bind fun b =>
      if b ≠ c then some false else if b = 0 then some true else sameString bs (off + 1) s

/-- The bytes in front of the first zero. -/
def cString (bs : Bytes) : Bytes := bs.takeWhile (· ≠ 0)

/-- The string at `off` that ends within `bs`. -/
def stringAt (bs : Bytes) (off : Nat) : Option Bytes :=
  if 0 ∈ bs.drop off then some (cString (bs.drop off)) else none

variable {bs s : Bytes} {off n k : Nat} {b : UInt8}

theorem slice_eq_some_iff {part : Bytes} :
    slice bs off n = some part ↔ off + n ≤ bs.length ∧ part = (bs.drop off).take n := by
  unfold slice
  split
  · rename_i hle
    simp [hle, eq_comm]
  · rename_i hle
    simp [hle]

theorem slice_of_le (h : off + n ≤ bs.length) : slice bs off n = some ((bs.drop off).take n) :=
  if_pos h

theorem ofBytes_lt (bs : Bytes) : ofBytes bs < 256 ^ bs.length := by
  induction bs with
  | nil => simp [ofBytes]
  | cons b bs ih =>
      have hb := b.toNat_lt
      rw [ofBytes, List.length_cons, Nat.pow_succ']
      omega

theorem field_lt (bs : Bytes) (off n : Nat) : field bs off n < 256 ^ n := by
  refine (ofBytes_lt _).trans_le (Nat.pow_le_pow_right (by decide) ?_)
  simp

theorem drop_eq_cons (h : bs[off]? = some b) : bs.drop off = b :: bs.drop (off + 1) := by
  obtain ⟨hlt, rfl⟩ := List.getElem?_eq_some_iff.mp h
  exact List.drop_eq_getElem_cons hlt

theorem hasZero_eq (h : off + n ≤ bs.length) :
    hasZero bs off n = some (decide (0 ∈ (bs.drop off).take n)) := by
  induction n generalizing off with
  | zero => simp [hasZero]
  | succ n ih =>
      obtain ⟨b, hb⟩ : ∃ b, bs[off]? = some b := ⟨_, List.getElem?_eq_getElem (by omega)⟩
      rw [hasZero, hb, Option.bind_some, drop_eq_cons hb, List.take_succ_cons]
      split
      · rename_i hzero
        simp [hzero]
      · rename_i hne
        rw [ih (by omega)]
        simp [Ne.symm hne]

theorem cString_cons (b : UInt8) (bs : Bytes) :
    cString (b :: bs) = if b = 0 then [] else b :: cString bs := by
  rw [cString, List.takeWhile_cons]
  split <;> simp_all [cString]

/-- The string that ends at the first zero of the bytes. -/
theorem cString_append (h : 0 ∉ s) (tail : Bytes) : cString (s ++ 0 :: tail) = s := by
  induction s with
  | nil => rfl
  | cons b s ih =>
      obtain ⟨hb, hs⟩ := not_or.mp (List.mem_cons.not.mp h)
      rw [List.cons_append, cString_cons, if_neg (fun hzero => hb hzero.symm), ih hs]

theorem field_append_left (bs tail : Bytes) : field (bs ++ tail) 0 bs.length = ofBytes bs := by
  rw [field, List.drop_zero, List.take_left]

theorem field_append_right (bs tail : Bytes) (off n : Nat) :
    field (bs ++ tail) (bs.length + off) n = field tail off n := by
  rw [field, field, ← List.drop_drop, List.drop_left]

theorem sameString_eq (h : 0 ∈ bs.drop off) (s : Bytes) :
    sameString bs off s = some (decide (cString (bs.drop off) = cString s)) := by
  induction s generalizing off with
  | nil =>
      cases hb : bs[off]? with
      | none =>
          rw [List.drop_eq_nil_of_le (List.getElem?_eq_none_iff.mp hb)] at h
          cases h
      | some b =>
          rw [sameString, hb, Option.map_some, drop_eq_cons hb, cString_cons]
          split <;> simp_all [cString]
  | cons c s ih =>
      cases hb : bs[off]? with
      | none =>
          rw [List.drop_eq_nil_of_le (List.getElem?_eq_none_iff.mp hb)] at h
          cases h
      | some b =>
          rw [drop_eq_cons hb] at h
          rw [sameString, hb, Option.bind_some, drop_eq_cons hb, cString_cons, cString_cons]
          by_cases hzero : b = 0
          · subst hzero
            by_cases hc : c = 0
            · simp [hc]
            · simp [hc, show (0 : UInt8) ≠ c from fun h => hc h.symm]
          · have hrest : 0 ∈ bs.drop (off + 1) := by
              rcases List.mem_cons.mp h with heq | hmem
              · exact absurd heq.symm hzero
              · exact hmem
            by_cases hc : b = c
            · subst hc
              simp [hzero, ih hrest]
            · by_cases hc0 : c = 0 <;> simp [hc, hzero, hc0]

/-- The two tests together: whether the string at `off` is `s`. -/
theorem stringAt_eq_some_iff : stringAt bs off = some (cString s) ↔
    0 ∈ bs.drop off ∧ cString (bs.drop off) = cString s := by
  unfold stringAt
  split
  · rename_i hmem
    simp [hmem]
  · rename_i hmem
    simp [hmem]

end LfiRuntime.ByteString
