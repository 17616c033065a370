import Mathlib.Data.Finset.Insert
import Mathlib.Logic.Function.Basic

/-!
Handles to resources, such as descriptors or addresses. A handle that has been
closed may be given out again, so that what is counted are the instances behind the
handles. `Keeps` says that a component, with a known holder for each handle it has,
closes every instance it has taken over exactly once.
-/

namespace LfiRuntime.Handles

universe u v w

structure Instance (α : Type v) where
  serial : Nat
  content : α

/-- `mine` are the instances that the component has to close, `closes` how often it
has closed each, and `stray` how often it has closed a handle that was not open. -/
structure Ledger (η : Type u) (α : Type v) where
  live : η → Option (Instance α)
  issued : Nat
  mine : Finset Nat
  closes : Nat → Nat
  stray : Nat

namespace Ledger

variable {η : Type u} {α : Type v}

/-- Nothing is open. -/
def empty : Ledger η α := ⟨fun _ => none, 0, ∅, fun _ => 0, 0⟩

/-- What an open handle refers to. -/
def content (l : Ledger η α) (h : η) : Option α := (l.live h).map Instance.content

/-- The component takes over what a handle refers to. -/
def adopt (l : Ledger η α) (h : η) : Ledger η α :=
  { l with mine := ((l.live h).map fun i => insert i.serial l.mine).getD l.mine }

@[simp] theorem content_adopt (l : Ledger η α) (h : η) : (l.adopt h).content = l.content := rfl

variable [DecidableEq η]

/-- A handle is given out. -/
def issue (l : Ledger η α) (h : η) (a : α) : Ledger η α :=
  { l with live := Function.update l.live h (some ⟨l.issued, a⟩), issued := l.issued + 1 }

/-- A handle is given out to the component. -/
def create (l : Ledger η α) (h : η) (a : α) : Ledger η α := (l.issue h a).adopt h

/-- A handle is closed by others. -/
def drop (l : Ledger η α) (h : η) : Ledger η α :=
  { l with live := Function.update l.live h none }

/-- The component closes a handle. -/
def close (l : Ledger η α) (h : η) : Ledger η α :=
  match l.live h with
  | none => { l with stray := l.stray + 1 }
  | some i =>
    { l.drop h with closes := Function.update l.closes i.serial (l.closes i.serial + 1) }

def write (l : Ledger η α) (h : η) (a : α) : Ledger η α :=
  { l with live := Function.update l.live h ((l.live h).map fun i => ⟨i.serial, a⟩) }

variable {l : Ledger η α} {h h' : η} {a : α}

@[simp] theorem content_issue : (l.issue h a).content = Function.update l.content h (some a) := by
  funext h'
  by_cases heq : h' = h <;> simp [content, issue, heq]

@[simp] theorem content_create : (l.create h a).content = Function.update l.content h (some a) :=
  content_issue

@[simp] theorem content_drop : (l.drop h).content = Function.update l.content h none := by
  funext h'
  by_cases heq : h' = h <;> simp [content, drop, heq]

@[simp] theorem content_close : (l.close h).content = Function.update l.content h none := by
  unfold close
  split
  · rename_i hnone
    funext h'
    by_cases heq : h' = h
    · simp [content, heq, hnone]
    · simp [content, heq]
  · exact content_drop

theorem content_write (hopen : (l.content h).isSome) :
    (l.write h a).content = Function.update l.content h (some a) := by
  obtain ⟨i, hi⟩ : ∃ i, l.live h = some i := by simpa [content, Option.isSome_iff_exists] using hopen
  funext h'
  by_cases heq : h' = h <;> simp [content, write, heq, hi]

end Ledger

variable {η : Type u} {α : Type v} {ι : Type w}

/-- Each handle that has a holder refers to an instance of the component, and each
instance of the component has a holder or has been closed once. -/
structure Keeps (l : Ledger η α) (owner : ι → Option η) : Prop where
  fresh : ∀ h i, l.live h = some i → i.serial < l.issued
  inj : ∀ h h' i i', l.live h = some i → l.live h' = some i' → i.serial = i'.serial → h = h'
  held : ∀ x h, owner x = some h → ∃ i, l.live h = some i ∧ i.serial ∈ l.mine
  alone : ∀ x y h, owner x = some h → owner y = some h → x = y
  bound : ∀ s ∈ l.mine, s < l.issued
  accounted : ∀ s ∈ l.mine,
    (l.closes s = 0 ∧ ∃ x h i, owner x = some h ∧ l.live h = some i ∧ i.serial = s) ∨
      (l.closes s = 1 ∧ ∀ h i, l.live h = some i → i.serial ≠ s)
  foreign : ∀ s, s ∉ l.mine → l.closes s = 0
  stray : l.stray = 0

theorem keeps_empty : Keeps (.empty : Ledger η α) fun _ : ι => none where
  fresh _ _ h := nomatch h
  inj _ _ _ _ h := nomatch h
  held _ _ h := nomatch h
  alone _ _ _ h := nomatch h
  bound s hs := absurd hs (Finset.notMem_empty s)
  accounted s hs := absurd hs (Finset.notMem_empty s)
  foreign _ _ := rfl
  stray := rfl

/-- Every instance that the component has taken over is closed, and just once; no
other instance is, and nothing that was not open. -/
structure Settled (l : Ledger η α) : Prop where
  closes : ∀ s, l.closes s = if s ∈ l.mine then 1 else 0
  stray : l.stray = 0

section Rules

variable {l : Ledger η α} {owner owner' : ι → Option η} {x y : ι} {h : η} {a : α}

theorem Keeps.settled (hk : Keeps l owner) (hnone : ∀ x, owner x = none) : Settled l := by
  refine ⟨fun s => ?_, hk.stray⟩
  by_cases hs : s ∈ l.mine
  · rw [if_pos hs]
    rcases hk.accounted s hs with ⟨-, x, h, -, hx, -⟩ | ⟨hone, -⟩
    · rw [hnone x] at hx
      cases hx
    · exact hone
  · rw [if_neg hs]
    exact hk.foreign s hs

theorem Keeps.isOpen (hk : Keeps l owner) (hx : owner x = some h) : (l.content h).isSome := by
  obtain ⟨i, hi, -⟩ := hk.held x h hx
  simp [Ledger.content, hi]

theorem Keeps.not_held (hk : Keeps l owner) (hclosed : l.content h = none) (x : ι) :
    owner x ≠ some h := by
  intro hx
  have hopen := hk.isOpen hx
  rw [hclosed] at hopen
  cases hopen

/-- What no holder refers to is not among the component's instances. -/
theorem Keeps.not_mine (hk : Keeps l owner) {i : Instance α} (hi : l.live h = some i)
    (hfree : ∀ x, owner x ≠ some h) : i.serial ∉ l.mine := by
  intro hmine
  rcases hk.accounted _ hmine with ⟨-, x, h', i', hx, hi', heq⟩ | ⟨-, hdead⟩
  · obtain rfl := hk.inj h' h i' i hi' hi heq
    exact hfree x hx
  · exact hdead h i hi rfl

/-- Holders may be renamed. -/
theorem Keeps.reown (hk : Keeps l owner) (f : ι → ι)
    (hto : ∀ x h, owner x = some h → owner' (f x) = some h)
    (hfrom : ∀ y h, owner' y = some h → ∃ x, f x = y ∧ owner x = some h) : Keeps l owner' where
  fresh := hk.fresh
  inj := hk.inj
  held y h hy := by
    obtain ⟨x, -, hx⟩ := hfrom y h hy
    exact hk.held x h hx
  alone y y' h hy hy' := by
    obtain ⟨x, rfl, hx⟩ := hfrom y h hy
    obtain ⟨x', rfl, hx'⟩ := hfrom y' h hy'
    rw [hk.alone x x' h hx hx']
  bound := hk.bound
  accounted s hs := by
    rcases hk.accounted s hs with ⟨hzero, x, h, i, hx, hi⟩ | hclosed
    · exact .inl ⟨hzero, f x, h, i, hto x h hx, hi⟩
    · exact .inr hclosed
  foreign := hk.foreign
  stray := hk.stray

section Handle

variable [DecidableEq η]

theorem Keeps.issue (hk : Keeps l owner) (hclosed : l.content h = none) :
    Keeps (l.issue h a) owner := by
  have hnone : l.live h = none := by simpa [Ledger.content] using hclosed
  have hold : ∀ h' i, (l.issue h a).live h' = some i →
      (h' = h ∧ i.serial = l.issued) ∨ (h' ≠ h ∧ l.live h' = some i) := by
    intro h' i hi
    by_cases heq : h' = h
    · subst heq
      have hsome : some ⟨l.issued, a⟩ = some i := by simpa [Ledger.issue] using hi
      cases hsome
      exact .inl ⟨rfl, rfl⟩
    · exact .inr ⟨heq, by simpa [Ledger.issue, heq] using hi⟩
  have hkept : ∀ h' i, l.live h' = some i → (l.issue h a).live h' = some i := by
    intro h' i hi
    have hne : h' ≠ h := by
      rintro rfl
      rw [hnone] at hi
      cases hi
    simpa [Ledger.issue, hne] using hi
  constructor
  case fresh =>
    intro h' i hi
    show i.serial < l.issued + 1
    rcases hold h' i hi with ⟨-, heq⟩ | ⟨-, hi⟩
    · omega
    · have := hk.fresh h' i hi
      omega
  case inj =>
    intro h₁ h₂ i₁ i₂ h₁' h₂' heq
    rcases hold h₁ i₁ h₁' with ⟨rfl, hnew⟩ | ⟨-, hi₁⟩ <;>
      rcases hold h₂ i₂ h₂' with ⟨rfl, hnew'⟩ | ⟨-, hi₂⟩
    · rfl
    · have := hk.fresh h₂ i₂ hi₂
      omega
    · have := hk.fresh h₁ i₁ hi₁
      omega
    · exact hk.inj h₁ h₂ i₁ i₂ hi₁ hi₂ heq
  case held =>
    intro x h' hx
    obtain ⟨i, hi, hmine⟩ := hk.held x h' hx
    exact ⟨i, hkept h' i hi, hmine⟩
  case alone => exact hk.alone
  case bound =>
    intro s hs
    exact Nat.lt_succ_of_lt (hk.bound s hs)
  case accounted =>
    intro s hs
    rcases hk.accounted s hs with ⟨hzero, x, h', i, hx, hi, heq⟩ | ⟨hone, hdead⟩
    · exact .inl ⟨hzero, x, h', i, hx, hkept h' i hi, heq⟩
    · refine .inr ⟨hone, fun h' i hi => ?_⟩
      rcases hold h' i hi with ⟨-, heq⟩ | ⟨-, hi⟩
      · have := hk.bound s hs
        omega
      · exact hdead h' i hi
  case foreign => exact hk.foreign
  case stray => exact hk.stray

theorem Keeps.drop (hk : Keeps l owner) (hfree : ∀ x, owner x ≠ some h) :
    Keeps (l.drop h) owner := by
  have hold : ∀ h' i, (l.drop h).live h' = some i → l.live h' = some i := by
    intro h' i hi
    by_cases heq : h' = h
    · simp [Ledger.drop, heq] at hi
    · simpa [Ledger.drop, heq] using hi
  have hkept : ∀ x h' i, owner x = some h' → l.live h' = some i →
      (l.drop h).live h' = some i := by
    intro x h' i hx hi
    have hne : h' ≠ h := by
      rintro rfl
      exact hfree x hx
    simpa [Ledger.drop, hne] using hi
  constructor
  case fresh => exact fun h' i hi => hk.fresh h' i (hold h' i hi)
  case inj =>
    exact fun h₁ h₂ i₁ i₂ h₁' h₂' => hk.inj h₁ h₂ i₁ i₂ (hold h₁ i₁ h₁') (hold h₂ i₂ h₂')
  case held =>
    intro x h' hx
    obtain ⟨i, hi, hmine⟩ := hk.held x h' hx
    exact ⟨i, hkept x h' i hx hi, hmine⟩
  case alone => exact hk.alone
  case bound => exact hk.bound
  case accounted =>
    intro s hs
    rcases hk.accounted s hs with ⟨hzero, x, h', i, hx, hi, heq⟩ | ⟨hone, hdead⟩
    · exact .inl ⟨hzero, x, h', i, hx, hkept x h' i hx hi, heq⟩
    · exact .inr ⟨hone, fun h' i hi => hdead h' i (hold h' i hi)⟩
  case foreign => exact hk.foreign
  case stray => exact hk.stray

theorem Keeps.write (hk : Keeps l owner) : Keeps (l.write h a) owner := by
  have hold : ∀ h' i, (l.write h a).live h' = some i →
      ∃ i', l.live h' = some i' ∧ i'.serial = i.serial := by
    intro h' i hi
    by_cases heq : h' = h
    · subst heq
      obtain ⟨i', hi', rfl⟩ : ∃ i', l.live h' = some i' ∧ (⟨i'.serial, a⟩ : Instance α) = i := by
        simpa [Ledger.write] using hi
      exact ⟨i', hi', rfl⟩
    · exact ⟨i, by simpa [Ledger.write, heq] using hi, rfl⟩
  have hkept : ∀ h' i, l.live h' = some i →
      ∃ i', (l.write h a).live h' = some i' ∧ i'.serial = i.serial := by
    intro h' i hi
    by_cases heq : h' = h
    · subst heq
      exact ⟨⟨i.serial, a⟩, by simp [Ledger.write, hi], rfl⟩
    · exact ⟨i, by simpa [Ledger.write, heq] using hi, rfl⟩
  constructor
  case fresh =>
    intro h' i hi
    obtain ⟨i', hi', heq⟩ := hold h' i hi
    exact heq ▸ hk.fresh h' i' hi'
  case inj =>
    intro h₁ h₂ i₁ i₂ h₁' h₂' heq
    obtain ⟨i₁', hi₁, heq₁⟩ := hold h₁ i₁ h₁'
    obtain ⟨i₂', hi₂, heq₂⟩ := hold h₂ i₂ h₂'
    exact hk.inj h₁ h₂ i₁' i₂' hi₁ hi₂ (heq₁.trans (heq.trans heq₂.symm))
  case held =>
    intro x h' hx
    obtain ⟨i, hi, hmine⟩ := hk.held x h' hx
    obtain ⟨i', hi', heq⟩ := hkept h' i hi
    exact ⟨i', hi', heq ▸ hmine⟩
  case alone => exact hk.alone
  case bound => exact hk.bound
  case accounted =>
    intro s hs
    rcases hk.accounted s hs with ⟨hzero, x, h', i, hx, hi, heq⟩ | ⟨hone, hdead⟩
    · obtain ⟨i', hi', heq'⟩ := hkept h' i hi
      exact .inl ⟨hzero, x, h', i', hx, hi', heq'.trans heq⟩
    · refine .inr ⟨hone, fun h' i hi => ?_⟩
      obtain ⟨i', hi', heq⟩ := hold h' i hi
      exact heq ▸ hdead h' i' hi'
  case foreign => exact hk.foreign
  case stray => exact hk.stray

end Handle

variable [DecidableEq ι]

theorem Keeps.move (hk : Keeps l owner) (hx : owner x = some h) (hy : owner y = none) :
    Keeps l (Function.update (Function.update owner x none) y (some h)) := by
  have hne : x ≠ y := by
    rintro rfl
    rw [hx] at hy
    cases hy
  apply hk.reown fun z => if z = x then y else z
  · intro z h' hz
    by_cases hzx : z = x
    · subst hzx
      rw [hx] at hz
      cases hz
      simp
    · have hzy : z ≠ y := by
        rintro rfl
        rw [hz] at hy
        cases hy
      simp [hzx, hzy, hz]
  · intro z h' hz
    by_cases hzy : z = y
    · subst hzy
      refine ⟨x, if_pos rfl, ?_⟩
      rw [hx]
      simpa using hz
    · by_cases hzx : z = x
      · simp [hzx, hne] at hz
      · exact ⟨z, if_neg hzx, by simpa [hzx, hzy] using hz⟩

theorem Keeps.adopt (hk : Keeps l owner) (hopen : (l.content h).isSome)
    (hfree : ∀ x, owner x ≠ some h) (hx : owner x = none) :
    Keeps (l.adopt h) (Function.update owner x (some h)) := by
  obtain ⟨i, hi⟩ : ∃ i, l.live h = some i := by
    simpa [Ledger.content, Option.isSome_iff_exists] using hopen
  have hmine : (l.adopt h).mine = insert i.serial l.mine := by simp [Ledger.adopt, hi]
  have hnot := hk.not_mine hi hfree
  constructor
  case fresh => exact hk.fresh
  case inj => exact hk.inj
  case held =>
    intro y h' hy
    rw [hmine]
    by_cases hyx : y = x
    · subst hyx
      obtain rfl : h = h' := by simpa using hy
      exact ⟨i, hi, Finset.mem_insert_self _ _⟩
    · obtain ⟨i', hi', hmem⟩ := hk.held y h' (by simpa [hyx] using hy)
      exact ⟨i', hi', Finset.mem_insert_of_mem hmem⟩
  case alone =>
    intro y y' h' hy hy'
    by_cases hyx : y = x <;> by_cases hyx' : y' = x
    · rw [hyx, hyx']
    · subst hyx
      obtain rfl : h = h' := by simpa using hy
      exact absurd (by simpa [hyx'] using hy') (hfree y')
    · subst hyx'
      obtain rfl : h = h' := by simpa using hy'
      exact absurd (by simpa [hyx] using hy) (hfree y)
    · exact hk.alone y y' h' (by simpa [hyx] using hy) (by simpa [hyx'] using hy')
  case bound =>
    intro s hs
    rw [hmine] at hs
    rcases Finset.mem_insert.mp hs with rfl | hs
    · exact hk.fresh h i hi
    · exact hk.bound s hs
  case accounted =>
    intro s hs
    rw [hmine] at hs
    rcases Finset.mem_insert.mp hs with rfl | hs
    · exact .inl ⟨hk.foreign _ hnot, x, h, i, Function.update_self .., hi, rfl⟩
    · rcases hk.accounted s hs with ⟨hzero, y, h', i', hy, hi', heq⟩ | hclosed
      · have hyx : y ≠ x := by
          rintro rfl
          rw [hx] at hy
          cases hy
        exact .inl ⟨hzero, y, h', i', by rw [Function.update_of_ne hyx, hy], hi', heq⟩
      · exact .inr hclosed
  case foreign =>
    intro s hs
    rw [hmine] at hs
    exact hk.foreign s fun hmem => hs (Finset.mem_insert_of_mem hmem)
  case stray => exact hk.stray

variable [DecidableEq η]

theorem Keeps.create (hk : Keeps l owner) (hclosed : l.content h = none) (hx : owner x = none) :
    Keeps (l.create h a) (Function.update owner x (some h)) :=
  (hk.issue hclosed).adopt (by simp) (hk.not_held hclosed) hx

theorem Keeps.close (hk : Keeps l owner) (hx : owner x = some h) :
    Keeps (l.close h) (Function.update owner x none) := by
  obtain ⟨i, hi, hmine⟩ := hk.held x h hx
  have hclose : l.close h =
      { l.drop h with closes := Function.update l.closes i.serial (l.closes i.serial + 1) } := by
    simp [Ledger.close, hi]
  have hzero : l.closes i.serial = 0 := by
    rcases hk.accounted _ hmine with ⟨hzero, -⟩ | ⟨-, hdead⟩
    · exact hzero
    · exact absurd rfl (hdead h i hi)
  have hold : ∀ h' i', (l.drop h).live h' = some i' → h' ≠ h ∧ l.live h' = some i' := by
    intro h' i' hi'
    by_cases heq : h' = h
    · simp [Ledger.drop, heq] at hi'
    · exact ⟨heq, by simpa [Ledger.drop, heq] using hi'⟩
  have hkept : ∀ y h' i', y ≠ x → owner y = some h' → l.live h' = some i' →
      (l.drop h).live h' = some i' := by
    intro y h' i' hy hy' hi'
    have hne : h' ≠ h := by
      rintro rfl
      exact hy (hk.alone y x h' hy' hx)
    simpa [Ledger.drop, hne] using hi'
  have howner : ∀ y h', Function.update owner x none y = some h' → y ≠ x ∧ owner y = some h' := by
    intro y h' hy
    by_cases hyx : y = x
    · simp [hyx] at hy
    · exact ⟨hyx, by simpa [hyx] using hy⟩
  rw [hclose]
  constructor
  case fresh => exact fun h' i' hi' => hk.fresh h' i' (hold h' i' hi').2
  case inj =>
    exact fun h₁ h₂ i₁ i₂ h₁' h₂' => hk.inj h₁ h₂ i₁ i₂ (hold h₁ i₁ h₁').2 (hold h₂ i₂ h₂').2
  case held =>
    intro y h' hy
    obtain ⟨hyx, hy⟩ := howner y h' hy
    obtain ⟨i', hi', hmine'⟩ := hk.held y h' hy
    exact ⟨i', hkept y h' i' hyx hy hi', hmine'⟩
  case alone =>
    exact fun y y' h' hy hy' => hk.alone y y' h' (howner y h' hy).2 (howner y' h' hy').2
  case bound => exact hk.bound
  case accounted =>
    intro s hs
    by_cases heq : s = i.serial
    · subst heq
      refine .inr ⟨by simp [hzero], fun h' i' hi' hserial => ?_⟩
      obtain ⟨hne, hi'⟩ := hold h' i' hi'
      exact hne (hk.inj h' h i' i hi' hi hserial)
    · simp only [Function.update_of_ne heq]
      rcases hk.accounted s hs with ⟨hs0, y, h', i', hy, hi', hserial⟩ | ⟨hone, hdead⟩
      · have hyx : y ≠ x := by
          rintro rfl
          rw [hx] at hy
          cases hy
          rw [hi] at hi'
          cases hi'
          exact heq hserial.symm
        exact .inl ⟨hs0, y, h', i', by rw [Function.update_of_ne hyx, hy],
          hkept y h' i' hyx hy hi', hserial⟩
      · exact .inr ⟨hone, fun h' i' hi' => hdead h' i' (hold h' i' hi').2⟩
  case foreign =>
    intro s hs
    have heq : s ≠ i.serial := by
      rintro rfl
      exact hs hmine
    simpa [Function.update_of_ne heq] using hk.foreign s hs
  case stray => exact hk.stray

/-- A handle that is closed and given out again stays with its holder. -/
theorem Keeps.replace (hk : Keeps l owner) (hx : owner x = some h) :
    Keeps ((l.close h).create h a) owner := by
  have hkeeps := (hk.close hx).create (h := h) (x := x) (a := a) (by simp) (by simp)
  rwa [Function.update_idem, Function.update_eq_self_iff.mpr hx.symm] at hkeeps

end Rules

end LfiRuntime.Handles
