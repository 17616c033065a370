import LfiRuntime.Lib.PagedMemory
import LfiRuntime.Core.Config

/-!
The host a box runs on: its memory, and the outcome of every host call still
to come. A host call may fail for a reason of its own, so each one takes its
outcome from that list; a list that has run out means success. A call that
fails may have had part of its effect: `mprotect` goes through its range until
it fails, and a fixed mapping may have unmapped what it was to replace.
-/

namespace LfiRuntime.HostCalls

open LfiRuntime.PagedMemory
open LfiRuntime.Config

/-- How a host call ends. One that fails has reached that many pages of its range. -/
inductive Outcome
  | ok
  | fail (pages : Nat)
deriving DecidableEq, Repr

def Outcome.isOk : Outcome → Bool
  | .ok => true
  | .fail _ => false

/-- The call has its effect on the first page of its range. -/
def Outcome.reaches : Outcome → Bool
  | .ok => true
  | .fail pages => 0 < pages

/-- How many bytes of a range of `len` bytes the call has an effect on. -/
def Outcome.extent (ps len : Nat) : Outcome → Nat
  | .ok => len
  | .fail pages => min len (pages * ps)

@[simp] theorem Outcome.isOk_ok : Outcome.ok.isOk = true := rfl

@[simp] theorem Outcome.isOk_fail (pages : Nat) : (Outcome.fail pages).isOk = false := rfl

@[simp] theorem Outcome.extent_ok (ps len : Nat) : Outcome.ok.extent ps len = len := rfl

theorem Outcome.extent_le (ps len : Nat) (o : Outcome) : o.extent ps len ≤ len := by
  cases o with
  | ok => exact le_rfl
  | fail pages => exact Nat.min_le_left _ _

theorem Outcome.extent_of_isOk {ps len : Nat} {o : Outcome} (hok : o.isOk = true) :
    o.extent ps len = len := by
  cases o with
  | ok => rfl
  | fail pages => cases hok

theorem Outcome.reaches_of_isOk {o : Outcome} (hok : o.isOk = true) : o.reaches = true := by
  cases o with
  | ok => rfl
  | fail pages => cases hok

theorem Outcome.extent_page (ps : Nat) (o : Outcome) :
    o.extent ps ps = if o.reaches then ps else 0 := by
  cases o with
  | ok => rfl
  | fail pages =>
      cases pages with
      | zero => simp [extent, reaches]
      | succ n => simp [extent, reaches, Nat.le_mul_of_pos_left]

structure Host where
  mem : Memory
  outcomes : List Outcome
  /-- The calls of `lfiv_verify` that returned true, latest first: the address
  of the region and the bytes it held. -/
  verified : List (Nat × List UInt8)

/-- Take the outcome of the next host call. -/
def call (h : Host) : Outcome × Host :=
  (h.outcomes.headD .ok, { h with outcomes := h.outcomes.tail })

section

variable (ps : Nat)

/-- The arguments of a fixed mapping that no kernel accepts fail: an empty or
misaligned range, one beyond the address space, no source. -/
def mmapValid (start len : Nat) (src : Option Source) : Bool :=
  0 < len && start % ps == 0 && decide (start + len ≤ 2 ^ 64) && src.isSome

/-- `mmap` with `MAP_FIXED`. -/
def mmap (h : Host) (start len : Nat) (pr : Prot) (src : Option Source) : Bool × Host :=
  let c := call h
  match src with
  | some s =>
      if mmapValid ps start len src then
        if c.1.isOk then (true, { c.2 with mem := c.2.mem.mmapFixed ps start len pr s })
        else (false, { c.2 with mem := c.2.mem.munmap ps start (c.1.extent ps len) })
      else (false, c.2)
  | none => (false, c.2)

def mprotect (h : Host) (start len : Nat) (pr : Prot) : Bool × Host :=
  let c := call h
  if start % ps == 0 then
    (c.1.isOk, { c.2 with mem := c.2.mem.mprotect ps start (c.1.extent ps len) pr })
  else (false, c.2)

def munmap (h : Host) (start len : Nat) : Bool × Host :=
  let c := call h
  if 0 < len && start % ps == 0 then
    (c.1.isOk, { c.2 with mem := c.2.mem.munmap ps start (c.1.extent ps len) })
  else (false, c.2)

/-- `lfiv_verify` on the bytes `[base, base + size)`. -/
def lfivVerify (e : Engine) (h : Host) (base size : Nat) : Bool × Host :=
  let bytes := h.mem.readRange ps base size
  if e.lfivVerify base bytes then
    (true, { h with verified := (base, bytes) :: h.verified })
  else (false, h)

/-- A store by sandbox code. -/
def store (h : Host) (a : Nat) (b : UInt8) : Host :=
  { h with mem := h.mem.store ps a b }

end

section

variable {ps : Nat} {h : Host} {start len : Nat} {pr : Prot} {src : Option Source}

/-- A host call uses up one outcome and changes memory at most. -/
def used (h : Host) (mem : Memory) : Host := ⟨mem, h.outcomes.tail, h.verified⟩

@[simp] theorem mem_used (m : Memory) : (used h m).mem = m := rfl

@[simp] theorem outcomes_used (m : Memory) : (used h m).outcomes = h.outcomes.tail := rfl

@[simp] theorem verified_used (m : Memory) : (used h m).verified = h.verified := rfl

/-- The outcome that the next host call takes. -/
def next (h : Host) : Outcome := h.outcomes.headD .ok

theorem mprotect_eq_next (hal : start % ps = 0) (len : Nat) (pr : Prot) :
    mprotect ps h start len pr =
      ((next h).isOk, used h (h.mem.mprotect ps start ((next h).extent ps len) pr)) := by
  simp only [mprotect, call, hal]
  rfl

theorem mprotect_ok (hok : (next h).isOk = true) (hal : start % ps = 0) :
    mprotect ps h start len pr = (true, used h (h.mem.mprotect ps start len pr)) := by
  rw [mprotect_eq_next hal, hok, Outcome.extent_of_isOk hok]

/-- What a call of `mprotect` can do: one that fails may have changed a part of the range. -/
theorem mprotect_cases (ps : Nat) (h : Host) (start len : Nat) (pr : Prot) :
    ((next h).isOk = true ∧ start % ps = 0 ∧
        mprotect ps h start len pr = (true, used h (h.mem.mprotect ps start len pr))) ∨
      (start % ps = 0 ∧ ∃ n ≤ len,
        mprotect ps h start len pr = (false, used h (h.mem.mprotect ps start n pr))) ∨
      mprotect ps h start len pr = (false, used h h.mem) := by
  by_cases hal : start % ps = 0
  · cases hok : (next h).isOk with
    | true => exact .inl ⟨rfl, hal, mprotect_ok hok hal⟩
    | false =>
        exact .inr (.inl ⟨hal, _, Outcome.extent_le ps len (next h), by
          rw [mprotect_eq_next hal, hok]⟩)
  · refine .inr (.inr ?_)
    simp only [mprotect, call, beq_eq_false_iff_ne.mpr hal]
    rfl

theorem mmap_eq_next {s : Source} (hlen : 0 < len) (hal : start % ps = 0)
    (hend : start + len ≤ 2 ^ 64) (pr : Prot) :
    mmap ps h start len pr (some s) =
      ((next h).isOk, used h (if (next h).isOk then h.mem.mmapFixed ps start len pr s
        else h.mem.munmap ps start ((next h).extent ps len))) := by
  have hvalid : mmapValid ps start len (some s) = true := by
    rw [mmapValid, decide_eq_true hend]
    simp [hlen, hal]
  simp only [mmap, call, hvalid, if_true]
  change (if (next h).isOk then _ else _) = _
  split
  · rename_i hok
    rw [hok]
    rfl
  · rename_i hok
    rw [Bool.eq_false_of_not_eq_true hok]
    rfl

/-- What a call of `mmap` can do: one that fails may have unmapped a part of the range. -/
theorem mmap_cases (ps : Nat) (h : Host) (start len : Nat) (pr : Prot)
    (src : Option Source) :
    (∃ s, src = some s ∧ 0 < len ∧ start % ps = 0 ∧ start + len ≤ 2 ^ 64 ∧
        mmap ps h start len pr src = (true, used h (h.mem.mmapFixed ps start len pr s))) ∨
      (start % ps = 0 ∧ ∃ n ≤ len,
        mmap ps h start len pr src = (false, used h (h.mem.munmap ps start n))) ∨
      mmap ps h start len pr src = (false, used h h.mem) := by
  cases src with
  | none => exact .inr (.inr rfl)
  | some s =>
      by_cases hvalid : mmapValid ps start len (some s) = true
      · have hargs := hvalid
        simp only [mmapValid, Bool.and_eq_true, decide_eq_true_eq, beq_iff_eq] at hargs
        obtain ⟨⟨⟨hlen, hal⟩, hend⟩, -⟩ := hargs
        have heq := mmap_eq_next (h := h) (s := s) hlen hal hend pr
        cases hok : (next h).isOk with
        | true => exact .inl ⟨s, rfl, hlen, hal, hend, by rw [heq, hok, if_pos rfl]⟩
        | false =>
            exact .inr (.inl ⟨hal, _, Outcome.extent_le ps len (next h), by
              rw [heq, hok, if_neg (by simp)]⟩)
      · refine .inr (.inr ?_)
        simp only [mmap, call, Bool.eq_false_of_not_eq_true hvalid]
        rfl

theorem munmap_eq_next (hlen : 0 < len) (hal : start % ps = 0) :
    munmap ps h start len =
      ((next h).isOk, used h (h.mem.munmap ps start ((next h).extent ps len))) := by
  simp only [munmap, call, hal, hlen]
  rfl

/-- What a call of `munmap` can do: one that fails may have unmapped a part of the range. -/
theorem munmap_cases (ps : Nat) (h : Host) (start len : Nat) :
    (start % ps = 0 ∧ ∃ n ≤ len,
        munmap ps h start len = ((next h).isOk, used h (h.mem.munmap ps start n))) ∨
      munmap ps h start len = (false, used h h.mem) := by
  by_cases hargs : 0 < len ∧ start % ps = 0
  · exact .inl ⟨hargs.2, _, Outcome.extent_le ps len (next h),
      munmap_eq_next hargs.1 hargs.2⟩
  · right
    have hcond : (decide (0 < len) && start % ps == 0) = false := by simpa using hargs
    simp only [munmap, call, hcond]
    rfl

/-- What a call of `lfiv_verify` can do. -/
theorem lfivVerify_cases (ps : Nat) (e : Engine) (h : Host) (base size : Nat) :
    (e.lfivVerify base (h.mem.readRange ps base size) = true ∧
        lfivVerify ps e h base size =
          (true, { h with verified := (base, h.mem.readRange ps base size) :: h.verified })) ∨
      (e.lfivVerify base (h.mem.readRange ps base size) = false ∧
        lfivVerify ps e h base size = (false, h)) := by
  cases hv : e.lfivVerify base (h.mem.readRange ps base size) with
  | true => exact .inl ⟨rfl, by simp [lfivVerify, hv]⟩
  | false => exact .inr ⟨rfl, by simp [lfivVerify, hv]⟩

end

end LfiRuntime.HostCalls
