import LfiRuntime.Linux.BoxRange
import LfiRuntime.Sbox.CallContext

/-!
Which bytes the host reads and writes on the sandbox stack, from a stack pointer
that the sandbox has chosen.
-/

namespace LfiRuntime.SandboxStack

open LfiRuntime.Align
open LfiRuntime.Runs

def Inside (box : BoxRange.Box) (b : Block) : Prop :=
  box.min ≤ b.addr.toNat ∧ b.addr.toNat + b.size ≤ box.max

/-- From the stack pointer `sp` there is room in the box for a block of this size and
alignment, and not too much. -/
def Room (box : BoxRange.Box) (sp : Word) (size align : Nat) : Prop :=
  size ≤ box.max ∧ (box.min + (align - 1)) / align * align + size ≤ sp.toNat ∧
    sp.toNat < (box.max - size) / align * align + align + size

/-- There is room for what the host will touch. It never touches an `out` of a context
that is finalized already. -/
def Fits (box : BoxRange.Box) (isa : Isa) (s : State) : Op → Prop
  | .param k p size align _ => IsAlign align ∧
      ((p = .out ∧ ∀ c, s.frames[k]? = some (.context c) → c.finalized = true) ∨
        Room box s.sp size align)
  | .call args => stackArgs isa args = [] ∨ Room box s.sp (8 * (stackArgs isa args).length) 16
  | _ => True

/-- All that has been touched is inside, and all that is to be copied back. -/
structure Confined (box : BoxRange.Box) (s : State) : Prop where
  touched : ∀ b ∈ s.touched, Inside box b
  pending : ∀ c, .context c ∈ s.frames → c.finalized = false →
    ∀ cb ∈ c.copybacks, Inside box cb.sboxPtr

variable {box : BoxRange.Box} {isa : Isa} {s t : State} {c : CallContext} {size align : Nat}
  {sp : Word} {mem : Word → UInt8} {objects : Nat → Nat → UInt8}

/-! Pushes. -/

/-- What is rounded down stays above `m`. -/
theorem le_sub_mod_iff {m n : Nat} (halign : 0 < align) :
    m ≤ n - n % align ↔ (m + (align - 1)) / align * align ≤ n := by
  have hround : n - n % align = n / align * align := by
    have hmod := Nat.div_add_mod' n align
    omega
  have hceil : (m + (align - 1)) / align ≤ n / align ↔ m ≤ n / align * align := by
    rw [← Nat.lt_succ_iff, Nat.div_lt_iff_lt_mul halign, Nat.succ_mul]
    omega
  rw [hround, ← Nat.le_div_iff_mul_le halign, hceil]

/-- What is rounded down stays below `m`. -/
theorem sub_mod_le_iff {m n : Nat} (halign : 0 < align) :
    n - n % align ≤ m ↔ n < m / align * align + align := by
  have hround : n - n % align = n / align * align := by
    have hmod := Nat.div_add_mod' n align
    omega
  rw [hround, ← Nat.le_div_iff_mul_le halign, ← Nat.lt_succ_iff, Nat.div_lt_iff_lt_mul halign,
    Nat.succ_mul]

/-- The room is exactly what a push needs that does not wrap. -/
theorem inside_stackPush_iff (halign : IsAlign align) (hle : size ≤ s.sp.toNat) :
    Inside box (s.stackPush size align).1 ↔ Room box s.sp size align := by
  have hlow := le_sub_mod_iff (m := box.min) (n := s.sp.toNat - size) halign.pos
  have hhigh := sub_mod_le_iff (m := box.max - size) (n := s.sp.toNat - size) halign.pos
  have hsize : (s.stackPush size align).1.size = size := rfl
  rw [Inside, Room, toNat_stackPush halign hle, hsize]
  omega

theorem Room.inside (h : Room box s.sp size align) (halign : IsAlign align) :
    Inside box (s.stackPush size align).1 :=
  (inside_stackPush_iff halign (le_trans (Nat.le_add_left _ _) h.2.1)).mpr h

/-! What the operations touch. -/

theorem touched_copyBacks (cbs : List Copyback) (s : State) {b : Block}
    (hb : b ∈ (cbs.foldl State.copyBack s).touched) :
    b ∈ s.touched ∨ ∃ cb ∈ cbs, cb.sboxPtr = b := by
  induction cbs generalizing s with
  | nil => exact .inl hb
  | cons cb cbs ih =>
      rcases ih _ hb with hb | ⟨cb', hmem, rfl⟩
      · rcases List.mem_cons.mp hb with rfl | hb
        · exact .inr ⟨cb, List.mem_cons_self, rfl⟩
        · exact .inl hb
      · exact .inr ⟨cb', List.mem_cons_of_mem _ hmem, rfl⟩

theorem touched_writeArgs (ws : List Word) (s : State) (addr : Word) {b : Block}
    (hb : b ∈ (s.writeArgs addr ws).touched) :
    b ∈ s.touched ∨ ∃ i < ws.length, b = ⟨addr + BitVec.ofNat 64 (8 * i), 8, 8⟩ := by
  induction ws generalizing s addr with
  | nil => exact .inl hb
  | cons w ws ih =>
      rcases ih _ _ hb with hb | ⟨i, hi, rfl⟩
      · rcases List.mem_cons.mp hb with rfl | hb
        · exact .inr ⟨0, Nat.zero_lt_succ _, by simp⟩
        · exact .inl hb
      · refine .inr ⟨i + 1, Nat.succ_lt_succ hi, ?_⟩
        rw [BitVec.add_assoc, Nat.mul_succ, Nat.add_comm (8 * i), BitVec.ofNat_add]
        rfl

/-- The arguments lie in the block that is pushed for them. -/
theorem Room.slot {n i : Nat} (h : Room box s.sp (8 * n) 16) (hi : i < n) :
    Inside box ⟨(s.stackPush (8 * n) 16).1.addr + BitVec.ofNat 64 (8 * i), 8, 8⟩ := by
  have halign : IsAlign 16 := ⟨4, by decide, rfl⟩
  have hle : 8 * n ≤ s.sp.toNat := le_trans (Nat.le_add_left _ _) h.2.1
  have hpush := toNat_stackPush halign hle
  have hlt := s.sp.isLt
  obtain ⟨hmin, hmax⟩ := h.inside halign
  have haddr : ((s.stackPush (8 * n) 16).1.addr + BitVec.ofNat 64 (8 * i)).toNat =
      (s.stackPush (8 * n) 16).1.addr.toNat + 8 * i := by
    rw [BitVec.toNat_add, BitVec.toNat_ofNat]
    omega
  have hsize : (s.stackPush (8 * n) 16).1.size = 8 * n := rfl
  rw [Inside, haddr]
  simp only
  omega

/-! Runs. -/

theorem Confined.finalize (h : Confined box s) (hmem : .context c ∈ s.frames) :
    ∀ b ∈ (c.finalize s).2.touched, Inside box b := by
  intro b hb
  rw [CallContext.finalize] at hb
  split at hb
  · exact h.touched b hb
  · rename_i hfin
    rcases touched_copyBacks c.copybacks s hb with hb | ⟨cb, hcb, rfl⟩
    · exact h.touched b hb
    · exact h.pending c hmem (Bool.eq_false_iff.mpr hfin) cb hcb

/-- A context is replaced. -/
theorem Confined.setContext (h : Confined box s) (k : Nat) {r : CallContext × State}
    (htouched : ∀ b ∈ r.2.touched, Inside box b)
    (hpending : r.1.finalized = false → ∀ cb ∈ r.1.copybacks, Inside box cb.sboxPtr) :
    Confined box (s.setContext k r) := by
  refine ⟨htouched, fun c hc hfin => ?_⟩
  rcases List.mem_or_eq_of_mem_set hc with hc | heq
  · exact h.pending c hc hfin
  · obtain rfl := Frame.context.inj heq
    exact hpending hfin

theorem Confined.param (h : Confined box s) {k : Nat} (p : Param) {host : Nat}
    (hk : s.frames[k]? = some (.context c)) (hfits : Fits box isa s (.param k p size align host)) :
    Confined box (s.setContext k (p.code c s size align host)) := by
  obtain ⟨halign, hroom⟩ := hfits
  have hmem : .context c ∈ s.frames := List.mem_of_getElem? hk
  have hin : p.writes = true ∨ c.finalized = false → Inside box (s.stackPush size align).1 := by
    intro hor
    rcases hroom with ⟨rfl, hfin⟩ | hroom
    · rw [hfin c hk] at hor
      exact absurd hor (by decide)
    · exact hroom.inside halign
  rw [Param.code_eq]
  refine h.setContext k (fun b hb => ?_) (fun hfin cb hcb => ?_)
  · simp only [CallContext.param] at hb
    split at hb
    · rename_i hwrites
      rcases List.mem_cons.mp hb with rfl | hb
      · exact hin (.inl hwrites)
      · exact h.touched b hb
    · exact h.touched b hb
  · simp only [CallContext.param] at hfin hcb
    split at hcb
    · rcases List.mem_append.mp hcb with hcb | hcb
      · exact h.pending c hmem hfin cb hcb
      · rw [List.mem_singleton.mp hcb]
        exact hin (.inr hfin)
    · exact h.pending c hmem hfin cb hcb

/-- The frames that a step leaves or adds have nothing to copy back but what was there. -/
theorem Confined.frames (h : Confined box s) (htouched : t.touched = s.touched)
    (hframes : ∀ c, .context c ∈ t.frames → .context c ∈ s.frames ∨ c.copybacks = []) :
    Confined box t := by
  refine ⟨fun b hb => h.touched b (htouched ▸ hb), fun c hc hfin cb hcb => ?_⟩
  rcases hframes c hc with hc | hnil
  · exact h.pending c hc hfin cb hcb
  · rw [hnil] at hcb
    exact absurd hcb List.not_mem_nil

theorem Confined.stage (h : Confined box s) {ws : List Word}
    (hfits : ws = [] ∨ Room box s.sp (8 * ws.length) 16) :
    ∀ b ∈ (s.stageStackArgs ws).touched, Inside box b := by
  intro b hb
  rw [State.stageStackArgs] at hb
  split at hb
  · exact h.touched b hb
  · rename_i hne
    rcases touched_writeArgs ws s _ hb with hb | ⟨i, hi, rfl⟩
    · exact h.touched b hb
    · exact (hfits.resolve_left hne).slot hi

theorem Confined.step {op : Op} (h : Confined box s)
    (hfits : Fits box isa s op) (hstep : Step isa s op t) : Confined box t := by
  cases hstep with
  | construct hhost =>
      refine h.frames rfl fun c hc => ?_
      rcases List.mem_cons.mp hc with heq | hc
      · obtain rfl := Frame.context.inj heq
        exact .inr rfl
      · exact .inl hc
  | param p size align host hhost hk => exact h.param p hk hfits
  | finalize hhost hk =>
      refine h.setContext _ (h.finalize (List.mem_of_getElem? hk)) fun hfin => ?_
      rw [finalized_finalize] at hfin
      exact absurd hfin (by decide)
  | @destroy c fs hfs =>
      refine ⟨h.finalize (by rw [hfs]; exact List.mem_cons_self), fun c hc => ?_⟩
      exact h.pending c (by rw [hfs]; exact List.mem_cons_of_mem _ hc)
  | call args hhost =>
      refine ⟨h.stage hfits, fun c hc => ?_⟩
      rcases List.mem_cons.mp hc with heq | hc
      · cases heq
      · exact h.pending c hc
  | box mem hfs => exact h.frames rfl fun c hc => .inl hc
  | callback sp hfs =>
      refine h.frames rfl fun c hc => .inl ?_
      rcases List.mem_cons.mp hc with heq | hc
      · cases heq
      · exact hc
  | callbackEnd hfs =>
      refine h.frames rfl fun c hc => .inl ?_
      rw [hfs]
      exact List.mem_cons_of_mem _ hc
  | abort hisa hfs =>
      refine h.frames rfl fun c hc => .inl ?_
      rw [hfs]
      exact List.mem_cons_of_mem _ (List.mem_cons_of_mem _ hc)
  | ret hfs =>
      refine h.frames rfl fun c hc => .inl ?_
      rw [hfs]
      exact List.mem_cons_of_mem _ hc

/-- In every run in which there is room for what the host touches, from any stack pointer
and with any that callbacks come with, the host stays in the box. -/
theorem touched_inside (hrun : Reaches (Step isa) (Fits box isa) (.start sp mem objects) s) :
    ∀ b ∈ s.touched, Inside box b := by
  have hstart : Confined box (.start sp mem objects) :=
    ⟨fun b hb => absurd hb List.not_mem_nil, fun c hc => absurd hc List.not_mem_nil⟩
  have hconfined := hrun.invariant hstart fun _ _ _ h hfits hstep => h.step hfits hstep
  exact hconfined.touched

def sampleBox : BoxRange.Box := ⟨0x10000, 0x20000⟩

/-- A call of a sandbox function, which calls back with the stack pointer `sp`. -/
def sampleCallback (sp : Word) : State where
  sp := sp
  mem := fun _ => 0
  objects := fun _ _ => 0
  frames := [.callback 0x18000, .call 0x18000 0x18000]
  touched := []
  gone := []

/-- The host constructs a context, and gives it an object of 16 bytes. -/
def sampleIn (sp : Word) : State :=
  let s := { sampleCallback sp with
    frames := .context (.new (sampleCallback sp)) :: (sampleCallback sp).frames }
  s.setContext 0 ((CallContext.new (sampleCallback sp)).in s 16 8 0)

theorem sampleIn_reached {ok : State → Op → Prop} (sp : Word)
    (hcall : ok (.start 0x18000 (fun _ => 0) fun _ _ => 0) (.call []))
    (hcallback : ok { sampleCallback 0x18000 with frames := [.call 0x18000 0x18000] }
      (.callback sp))
    (hconstruct : ok (sampleCallback sp) .construct)
    (hin : ok { sampleCallback sp with
      frames := .context (.new (sampleCallback sp)) :: (sampleCallback sp).frames }
      (.param 0 .in 16 8 0)) :
    Reaches (Step .x64) ok (.start 0x18000 (fun _ => 0) fun _ _ => 0) (sampleIn sp) := by
  have hstart : Reaches (Step .x64) ok (.start 0x18000 (fun _ => 0) fun _ _ => 0)
      (.start 0x18000 (fun _ => 0) fun _ _ => 0) :=
    Reaches.refl _
  have hcalled := hstart.tail hcall (.call [] trivial)
  have hback := hcalled.tail hcallback (.callback sp rfl)
  have hnew := hback.tail hconstruct (.construct trivial)
  exact hnew.tail hin (.param .in 16 8 0 trivial rfl)

theorem touched_inside_sample :
    Reaches (Step .x64) (Fits sampleBox .x64) (.start 0x18000 (fun _ => 0) fun _ _ => 0)
      (sampleIn 0x17fe8) ∧
    (sampleIn 0x17fe8).touched = [⟨0x17fd8, 16, 8⟩] ∧
    ∀ b ∈ (sampleIn 0x17fe8).touched, Inside sampleBox b := by
  have hrun : Reaches (Step .x64) (Fits sampleBox .x64)
      (.start 0x18000 (fun _ => 0) fun _ _ => 0) (sampleIn 0x17fe8) :=
    sampleIn_reached _ (.inl rfl) trivial trivial
      ⟨⟨3, by decide, rfl⟩, .inr ⟨by decide, by decide, by decide⟩⟩
  exact ⟨hrun, by decide, touched_inside hrun⟩

/-- The sandbox calls back with a stack pointer at the bottom of the box. -/
theorem not_touched_inside_sample :
    Reaches (Step .x64) anyStep (.start 0x18000 (fun _ => 0) fun _ _ => 0) (sampleIn 0x10008) ∧
    ¬∀ b ∈ (sampleIn 0x10008).touched, Inside sampleBox b := by
  refine ⟨sampleIn_reached _ trivial trivial trivial trivial, fun h => ?_⟩
  obtain ⟨hmin, -⟩ := h ⟨0xfff8, 16, 8⟩ (by decide)
  exact absurd hmin (by decide)

end LfiRuntime.SandboxStack
