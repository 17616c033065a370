import Mathlib.Tactic
import LfiRuntime.Lib.Runs
import LfiRuntime.Linux.Align

/-!
The arena of the passthrough backend: `PassthroughArena`, and `idmem_alloc` and
`idmem_reset`, which use the one of the thread.
-/

namespace LfiRuntime.PassthroughArena

open LfiRuntime.Align
open LfiRuntime.Runs

def defaultSize : Nat := 64 * 1024

/-- `base` is `none` where `malloc` has failed. Offsets and sizes are 64-bit numbers. -/
structure Arena where
  base : Option Nat
  offset : Nat
deriving DecidableEq, Repr

/-- The offset of the block that is returned, and the arena after it. -/
def Arena.alloc (a : Arena) (size align : Nat) : Option Nat × Arena :=
  let offset := ((BitVec.ofNat 64 a.offset + BitVec.ofNat 64 align - 1) &&&
    ~~~(BitVec.ofNat 64 align - 1)).toNat
  let a := { a with offset := offset }
  if a.base = none ∨ defaultSize < (offset + size) % 2 ^ 64 then (none, a)
  else (some offset, { a with offset := (offset + size) % 2 ^ 64 })

def Arena.reset (a : Arena) : Arena := { a with offset := 0 }

/-- `none` where the product overflows. -/
def checkedMul (count size : Nat) : Option Nat :=
  if count * size < 2 ^ 64 then some (count * size) else none

inductive Op
  | alloc (size align : Nat)
  | idmemAlloc (count size align : Nat)
  | reset
deriving DecidableEq, Repr

/-- The call of `alloc` that an operation makes. -/
def Op.request : Op → Option (Nat × Nat)
  | .alloc size align => some (size, align)
  | .idmemAlloc count size align => (checkedMul count size).map fun bytes => (bytes, align)
  | .reset => none

/-- A block by its offset in the arena. -/
structure Block where
  offset : Nat
  size : Nat
  align : Nat
deriving DecidableEq, Repr

def Block.stop (b : Block) : Nat := b.offset + b.size

def Block.Has (b : Block) (x : Nat) : Prop := b.offset ≤ x ∧ x < b.stop

/-- The blocks have no byte in common. -/
def Block.Apart (a b : Block) : Prop := ∀ x, a.Has x → ¬b.Has x

/-- The arena, with the blocks returned since the last reset, which the code does not
keep. -/
structure State where
  arena : Arena
  blocks : List Block
deriving DecidableEq, Repr

def State.start (base : Option Nat) : State := ⟨⟨base, 0⟩, []⟩

def State.alloc (s : State) (size align : Nat) : State :=
  let r := s.arena.alloc size align
  ⟨r.2, (r.1.map fun offset => ⟨offset, size, align⟩).toList ++ s.blocks⟩

def State.apply (s : State) (op : Op) : State :=
  match op with
  | .reset => ⟨s.arena.reset, []⟩
  | _ => op.request.elim s fun r => s.alloc r.1 r.2

def Step (s : State) (op : Op) (t : State) : Prop := s.apply op = t

/-- A block of the arena, apart from the ones that are there. -/
structure Good (blocks : List Block) (b : Block) : Prop where
  inside : b.stop ≤ defaultSize
  aligned : b.align ∣ b.offset
  apart : ∀ c ∈ blocks, b.Apart c

/-- There is room for such a block in the arena. -/
def Fits (s : State) (size align : Nat) : Prop :=
  s.arena.base ≠ none ∧ ∃ offset, Good s.blocks ⟨offset, size, align⟩

/-- A request gets a good block, and gets one if there is room for it. -/
structure Serves (s : State) (size align : Nat) : Prop where
  good : ∀ offset, (s.arena.alloc size align).1 = some offset →
    Good s.blocks ⟨offset, size, align⟩
  served : Fits s size align → (s.arena.alloc size align).1 ≠ none

/-- The next multiple of `align`. -/
def roundUp (offset align : Nat) : Nat := (offset + align - 1) / align * align

/-- A request that gets nothing takes nothing from a later one. -/
def KeepsRoom (s : State) (size align : Nat) : Prop :=
  (s.arena.alloc size align).1 = none → ∀ size' align', size' < 2 ^ 64 → IsAlign align' →
    Serves s size' align' → Serves (s.alloc size align) size' align'

/-- The sum of the rounded offset and the size is a 64-bit number; and where it is beyond
the arena, the offset was a multiple of `align` already and there is no room for the
request in the padding before it. -/
def Tame (s : State) (size align : Nat) : Prop :=
  roundUp s.arena.offset align + size < 2 ^ 64 ∧
    (roundUp s.arena.offset align + size ≤ defaultSize ∨ align ∣ s.arena.offset ∧
      ∀ offset, offset < s.arena.offset → ¬Good s.blocks ⟨offset, size, align⟩)

/-- The arguments are of their types. -/
def Typed (op : Op) : Prop := ∀ r ∈ op.request, r.1 < 2 ^ 64 ∧ IsAlign r.2

def Meets (s : State) (op : Op) : Prop := Typed op ∧ ∀ r ∈ op.request, Tame s r.1 r.2

/-- The blocks lie in the arena below the offset. -/
structure Inv (s : State) : Prop where
  base : s.arena.base ≠ none
  room : s.arena.offset ≤ defaultSize
  good : ∀ b ∈ s.blocks, b.stop ≤ defaultSize ∧ b.align ∣ b.offset
  apart : s.blocks.Pairwise Block.Apart
  below : ∀ b ∈ s.blocks, b.stop ≤ s.arena.offset

variable {s t : State} {size align offset : Nat} {op : Op}

theorem dvd_roundUp (offset align : Nat) : align ∣ roundUp offset align := Nat.dvd_mul_left _ _

theorem le_roundUp (h : 0 < align) : offset ≤ roundUp offset align := by
  have hdiv := Nat.div_add_mod' (offset + align - 1) align
  have hlt := Nat.mod_lt (offset + align - 1) h
  rw [roundUp]
  omega

theorem roundUp_le {n : Nat} (h : 0 < align) (hdvd : align ∣ n) (hle : offset ≤ n) :
    roundUp offset align ≤ n := by
  obtain ⟨k, rfl⟩ := hdvd
  rw [roundUp, Nat.mul_comm align k]
  refine Nat.mul_le_mul_right _ (Nat.lt_succ_iff.mp ((Nat.div_lt_iff_lt_mul h).mpr ?_))
  rw [Nat.succ_mul, Nat.mul_comm k]
  omega

theorem roundUp_eq_of_dvd (h : 0 < align) (hdvd : align ∣ offset) : roundUp offset align = offset :=
  (roundUp_le h hdvd le_rfl).antisymm (le_roundUp h)

/-- The rounding of `alloc`, where its sum does not wrap. -/
theorem offset_eq (halign : IsAlign align) (hlt : offset + align - 1 < 2 ^ 64) :
    ((BitVec.ofNat 64 offset + BitVec.ofNat 64 align - 1) &&&
      ~~~(BitVec.ofNat 64 align - 1)).toNat = roundUp offset align := by
  have hsum : BitVec.ofNat 64 offset + BitVec.ofNat 64 align - 1 =
      BitVec.ofNat 64 offset + (BitVec.ofNat 64 align - 1) := by
    rw [BitVec.sub_eq_add_neg, BitVec.sub_eq_add_neg, BitVec.add_assoc]
  rw [hsum]
  exact ceilp_of_lt halign hlt

theorem alloc_eq (a : Arena) (halign : IsAlign align) (hlt : a.offset + align - 1 < 2 ^ 64)
    (size : Nat) :
    a.alloc size align =
      if a.base = none ∨ defaultSize < (roundUp a.offset align + size) % 2 ^ 64 then
        (none, { a with offset := roundUp a.offset align })
      else
        (some (roundUp a.offset align),
          { a with offset := (roundUp a.offset align + size) % 2 ^ 64 }) := by
  rw [Arena.alloc]
  simp only [offset_eq halign hlt]

theorem Inv.lt (h : Inv s) (halign : IsAlign align) : s.arena.offset + align - 1 < 2 ^ 64 := by
  have hroom := h.room
  obtain ⟨k, hk, rfl⟩ := halign
  have hle : 2 ^ k ≤ 2 ^ 63 := Nat.pow_le_pow_right (by decide) (by omega)
  rw [defaultSize] at hroom
  omega

/-- A request that the offset has no room for fits in the padding before it only. -/
theorem not_fits (halign : IsAlign align) (hout : defaultSize < roundUp s.arena.offset align + size)
    (htight : ∀ offset, offset < s.arena.offset → ¬Good s.blocks ⟨offset, size, align⟩) :
    ¬Fits s size align := by
  rintro ⟨-, p, hgood⟩
  have hle : s.arena.offset ≤ p := not_lt.mp fun hlt => htight p hlt hgood
  have hround := roundUp_le halign.pos hgood.aligned hle
  have hinside : p + size ≤ defaultSize := hgood.inside
  simp only at hround
  omega

theorem isAlign_one : IsAlign 1 := ⟨0, by decide, rfl⟩

/-- What a tame request does: it gets the block behind the offset, or nothing and
leaves the offset where it is. -/
theorem alloc_tame (h : Inv s) (halign : IsAlign align) (ht : Tame s size align) :
    (roundUp s.arena.offset align + size ≤ defaultSize ∧ s.arena.alloc size align =
        (some (roundUp s.arena.offset align),
          { s.arena with offset := roundUp s.arena.offset align + size })) ∨
      defaultSize < roundUp s.arena.offset align + size ∧
        s.arena.alloc size align = (none, s.arena) := by
  obtain ⟨hlt, hcase⟩ := ht
  rw [alloc_eq _ halign (h.lt halign), Nat.mod_eq_of_lt hlt]
  rcases Nat.lt_or_ge defaultSize (roundUp s.arena.offset align + size) with hout | hin
  · refine .inr ⟨hout, ?_⟩
    rw [if_pos (.inr hout), roundUp_eq_of_dvd halign.pos (hcase.resolve_left hout.not_ge).1]
  · refine .inl ⟨hin, ?_⟩
    rw [if_neg]
    exact not_or.mpr ⟨h.base, hin.not_gt⟩

/-- The block behind the offset. -/
theorem Inv.good_roundUp (h : Inv s) (halign : IsAlign align)
    (hin : roundUp s.arena.offset align + size ≤ defaultSize) :
    Good s.blocks ⟨roundUp s.arena.offset align, size, align⟩ := by
  refine ⟨hin, dvd_roundUp _ _, fun c hc x hx hxc => ?_⟩
  exact absurd ((hxc.2.trans_le (h.below c hc)).trans_le (le_roundUp halign.pos)) hx.1.not_gt

theorem serves_of_tame (h : Inv s) (halign : IsAlign align) (ht : Tame s size align) :
    Serves s size align := by
  rcases alloc_tame h halign ht with ⟨hin, heq⟩ | ⟨hout, heq⟩
  · refine ⟨?_, ?_⟩
    · intro offset hoffset
      rw [heq] at hoffset
      obtain rfl := Option.some.inj hoffset
      exact h.good_roundUp halign hin
    · intro _
      rw [heq]
      exact Option.some_ne_none _
  · refine ⟨?_, ?_⟩
    · intro offset hoffset
      rw [heq] at hoffset
      cases hoffset
    · intro hfits
      exact absurd hfits (not_fits halign hout (ht.2.resolve_left hout.not_ge).2)

theorem Inv.alloc (h : Inv s) (halign : IsAlign align) (ht : Tame s size align) :
    Inv (s.alloc size align) := by
  rcases alloc_tame h halign ht with ⟨hin, heq⟩ | ⟨-, heq⟩
  · have hgood := h.good_roundUp halign hin
    rw [State.alloc, heq]
    refine ⟨h.base, hin, ?_, ?_, ?_⟩
    · intro b hb
      rcases List.mem_cons.mp hb with rfl | hb
      · exact ⟨hgood.inside, hgood.aligned⟩
      · exact h.good b hb
    · exact List.pairwise_cons.mpr ⟨hgood.apart, h.apart⟩
    · intro b hb
      rcases List.mem_cons.mp hb with rfl | hb
      · exact le_rfl
      · exact (h.below b hb).trans ((le_roundUp halign.pos).trans (Nat.le_add_right _ _))
  · rw [State.alloc, heq]
    exact h

theorem Inv.apply (h : Inv s) (hmeets : Meets s op) : Inv (s.apply op) := by
  obtain ⟨htyped, htame⟩ := hmeets
  have hrequest : Inv (op.request.elim s fun r => s.alloc r.1 r.2) := by
    cases hr : op.request with
    | none => exact h
    | some r => exact h.alloc (htyped r hr).2 (htame r hr)
  cases op with
  | alloc size align => exact hrequest
  | idmemAlloc count size align => exact hrequest
  | reset =>
      exact ⟨h.base, Nat.zero_le _, fun b hb => absurd hb List.not_mem_nil, List.Pairwise.nil,
        fun b hb => absurd hb List.not_mem_nil⟩

theorem inv_of_reaches {base : Nat} (hrun : Reaches Step Meets (State.start (some base)) s) :
    Inv s := by
  refine hrun.invariant ?_ ?_
  · exact ⟨Option.some_ne_none _, Nat.zero_le _, fun b hb => absurd hb List.not_mem_nil,
      List.Pairwise.nil, fun b hb => absurd hb List.not_mem_nil⟩
  · rintro s op t hs hmeets rfl
    exact hs.apply hmeets

/-- A tame request that gets nothing leaves the arena as it is. -/
theorem keepsRoom_of_tame (h : Inv s) (halign : IsAlign align) (ht : Tame s size align) :
    KeepsRoom s size align := by
  intro hnone size' align' _ _ hserves
  rcases alloc_tame h halign ht with ⟨-, heq⟩ | ⟨-, heq⟩
  · rw [heq] at hnone
    cases hnone
  · rwa [State.alloc, heq]

/-- All that is behind the offset is there for a request. -/
theorem serves_rest (h : Inv s) : Serves s (defaultSize - s.arena.offset) 1 := by
  have hroom := h.room
  have hsum : roundUp s.arena.offset 1 + (defaultSize - s.arena.offset) = defaultSize := by
    rw [roundUp_eq_of_dvd Nat.one_pos (Nat.one_dvd _)]
    omega
  exact serves_of_tame h isAlign_one ⟨by rw [hsum]; decide, .inl hsum.le⟩

/-- A request that moves the offset and gets nothing wastes the room before it. -/
theorem not_keepsRoom (h : Inv s) (hnone : s.arena.alloc size align = (none, { s.arena with
    offset := roundUp s.arena.offset align }))
    (hmoved : s.arena.offset < roundUp s.arena.offset align)
    (hlt : roundUp s.arena.offset align + defaultSize < 2 ^ 64) :
    ¬KeepsRoom s size align := by
  have hroom := h.room
  intro hkeeps
  have hserves := hkeeps (by rw [hnone]) (defaultSize - s.arena.offset) 1
    ((Nat.sub_le _ _).trans_lt (by decide)) isAlign_one (serves_rest h)
  have hstate : s.alloc size align =
      ⟨{ s.arena with offset := roundUp s.arena.offset align }, s.blocks⟩ := by
    rw [State.alloc, hnone]
    rfl
  rw [hstate] at hserves
  have hgood : Good s.blocks ⟨s.arena.offset, defaultSize - s.arena.offset, 1⟩ := by
    refine ⟨(Nat.add_sub_cancel' hroom).le, Nat.one_dvd _, fun c hc x hx hxc => ?_⟩
    exact absurd (hxc.2.trans_le (h.below c hc)) hx.1.not_gt
  refine hserves.served ⟨h.base, s.arena.offset, hgood⟩ ?_
  rw [alloc_eq _ isAlign_one (by simp only; omega),
    roundUp_eq_of_dvd Nat.one_pos (Nat.one_dvd _), if_pos]
  refine .inr ?_
  simp only
  rw [Nat.mod_eq_of_lt (by omega)]
  omega

/-- Offsets in the arena round up to at most half of the 64-bit numbers. -/
theorem Inv.roundUp_le (h : Inv s) (halign : IsAlign align) :
    roundUp s.arena.offset align ≤ 2 ^ 63 := by
  have hroom := h.room
  refine PassthroughArena.roundUp_le halign.pos ?_ ?_
  · obtain ⟨k, hk, rfl⟩ := halign
    exact Nat.pow_dvd_pow 2 (by omega)
  · rw [defaultSize] at hroom
    omega

/-- A request that is not tame gets a bad block or none where there is room, or takes
room from a later one. -/
theorem unserved_of_not_tame (h : Inv s) (hsize : size < 2 ^ 64) (halign : IsAlign align)
    (ht : ¬Tame s size align) : ¬Serves s size align ∨ ¬KeepsRoom s size align := by
  have hround := h.roundUp_le halign
  have hle : s.arena.offset ≤ roundUp s.arena.offset align := le_roundUp halign.pos
  have hmoved : align ∣ s.arena.offset ∨ s.arena.offset < roundUp s.arena.offset align := by
    rcases hle.eq_or_lt with heq | hlt
    · exact .inl (heq ▸ dvd_roundUp _ _)
    · exact .inr hlt
  have heq := alloc_eq s.arena halign (h.lt halign) size
  have hrest : roundUp s.arena.offset align + defaultSize < 2 ^ 64 := by
    rw [defaultSize]
    omega
  rcases Nat.lt_or_ge (roundUp s.arena.offset align + size) (2 ^ 64) with hlt | hwrap
  · obtain ⟨hout, hcase⟩ := not_or.mp fun hor => ht ⟨hlt, hor⟩
    rw [Nat.mod_eq_of_lt hlt, if_pos (.inr (not_le.mp hout))] at heq
    rcases hmoved with hdvd | hmoved
    · -- the padding has room for it
      refine .inl fun hserves => hcase ⟨hdvd, fun p _ hgood => ?_⟩
      exact hserves.served ⟨h.base, p, hgood⟩ (congrArg Prod.fst heq)
    · exact .inr (not_keepsRoom h heq hmoved hrest)
  · rcases Nat.lt_or_ge defaultSize ((roundUp s.arena.offset align + size) % 2 ^ 64) with hout | hin
    · rw [if_pos (.inr hout)] at heq
      refine .inr (not_keepsRoom h heq ?_ hrest)
      have hroom := h.room
      have hless : roundUp s.arena.offset align + size - 2 ^ 64 < 2 ^ 64 := by omega
      rw [Nat.mod_eq_sub_mod hwrap, Nat.mod_eq_of_lt hless] at hout
      omega
    · rw [if_neg (not_or.mpr ⟨h.base, hin.not_gt⟩)] at heq
      refine .inl fun hserves => ?_
      have hgood := hserves.good _ (congrArg Prod.fst heq)
      have hinside : roundUp s.arena.offset align + size ≤ defaultSize := hgood.inside
      rw [defaultSize] at hinside
      omega

/-- Where the blocks leave no padding before the offset, a request is tame if it needs
none. -/
theorem tame_of_covered (hcovered : ∀ x, x < s.arena.offset → ∃ b ∈ s.blocks, b.Has x)
    (halign : IsAlign align) (hdvd : align ∣ s.arena.offset) (hpos : 0 < size)
    (hlt : s.arena.offset + size < 2 ^ 64) : Tame s size align := by
  refine ⟨by rwa [roundUp_eq_of_dvd halign.pos hdvd], .inr ⟨hdvd, fun p hp hgood => ?_⟩⟩
  obtain ⟨b, hb, hx⟩ := hcovered p hp
  exact hgood.apart b hb p ⟨le_rfl, Nat.lt_add_of_pos_right hpos⟩ hx

/-- While every request is tame, the blocks lie in the arena, aligned and apart; and a
request is tame exactly when it is served and, if it gets nothing, takes nothing from a
later one. -/
theorem served_iff_tame {base : Nat} (hrun : Reaches Step Meets (State.start (some base)) s) :
    (∀ b ∈ s.blocks, b.stop ≤ defaultSize ∧ b.align ∣ b.offset) ∧
      s.blocks.Pairwise Block.Apart ∧
      ∀ size align, size < 2 ^ 64 → IsAlign align →
        (Tame s size align ↔ Serves s size align ∧ KeepsRoom s size align) := by
  have h := inv_of_reaches hrun
  refine ⟨h.good, h.apart, ?_⟩
  intro size align hsize halign
  constructor
  · intro ht
    exact ⟨serves_of_tame h halign ht, keepsRoom_of_tame h halign ht⟩
  · rintro ⟨hserves, hkeeps⟩
    by_contra ht
    rcases unserved_of_not_tame h hsize halign ht with hbad | hbad
    · exact hbad hserves
    · exact hbad hkeeps

/-- After one block of one byte. -/
theorem served_iff_tame_after_byte :
    let s : State := ⟨⟨some 4096, 1⟩, [⟨0, 1, 1⟩]⟩
    (∀ b ∈ s.blocks, b.stop ≤ defaultSize ∧ b.align ∣ b.offset) ∧
      s.blocks.Pairwise Block.Apart ∧
      ∀ size align, size < 2 ^ 64 → IsAlign align →
        (Tame s size align ↔ Serves s size align ∧ KeepsRoom s size align) := by
  have hmeets : Meets (State.start (some 4096)) (.alloc 1 1) := by
    refine ⟨?_, ?_⟩
    · rintro r hr
      obtain rfl := Option.some.inj hr
      exact ⟨by decide, isAlign_one⟩
    · rintro r hr
      obtain rfl := Option.some.inj hr
      exact tame_of_covered (fun x hx => absurd hx (Nat.not_lt_zero x)) isAlign_one
        (Nat.one_dvd _) Nat.one_pos (by decide)
  have hstep : Step (State.start (some 4096)) (.alloc 1 1) ⟨⟨some 4096, 1⟩, [⟨0, 1, 1⟩]⟩ := by
    unfold Step
    decide
  exact served_iff_tame ((Reaches.refl _).tail hmeets hstep)

/-- `idmem_alloc<char>` of one byte and then of `SIZE_MAX`: the second block ends
beyond the arena. -/
theorem huge_request_not_served :
    (Op.idmemAlloc (2 ^ 64 - 1) 1 1).request = some (2 ^ 64 - 1, 1) ∧
      ¬Serves ((State.start (some 4096)).apply (.idmemAlloc 1 1 1)) (2 ^ 64 - 1) 1 := by
  refine ⟨by decide, fun hserves => ?_⟩
  have hgood := hserves.good 1 (by decide)
  exact absurd hgood.inside (by decide)

end LfiRuntime.PassthroughArena
