import Mathlib.Tactic

/-!
A process address space as the system calls `mmap`, `mprotect` and `munmap`
see it: a page table over byte contents. A page has a copy of its own or shows
a page of a file that every other mapping of that file shares. A page of a
private mapping of a file shows the file, too, until it is first written to.
-/

namespace LfiRuntime.PagedMemory

structure Prot where
  read : Bool
  write : Bool
  exec : Bool
  bti : Bool
deriving DecidableEq, Repr

/-- `PROT_NONE`. -/
def Prot.none : Prot := ⟨false, false, false, false⟩

/-- `PROT_READ`. -/
def Prot.readOnly : Prot := ⟨true, false, false, false⟩

/-- `PROT_READ | PROT_WRITE`. -/
def Prot.readWrite : Prot := ⟨true, true, false, false⟩

@[simp] theorem Prot.write_none : Prot.none.write = false := rfl

@[simp] theorem Prot.exec_none : Prot.none.exec = false := rfl

@[simp] theorem Prot.write_readOnly : Prot.readOnly.write = false := rfl

@[simp] theorem Prot.exec_readOnly : Prot.readOnly.exec = false := rfl

inductive Backing
  | priv
  | shared (file : Int) (page : Nat)
deriving DecidableEq, Repr

structure Page where
  prot : Prot
  backing : Backing
deriving DecidableEq, Repr

/-- Where a byte is kept: in the page's own copy or in a file. -/
inductive Cell
  | own (addr : Nat)
  | file (file : Int) (off : Nat)
deriving DecidableEq, Repr

/-- What a new mapping shows: zeroes, a file until it is written to, or the file
itself. -/
inductive Source
  | anon
  | privateFile (file : Int) (off : Nat)
  | sharedFile (file : Int) (off : Nat)
deriving DecidableEq, Repr

structure Memory where
  /-- The page table. A page with no entry belongs to no mapping. -/
  pages : Nat → Option Page
  priv : Nat → UInt8
  files : Int → Nat → UInt8
  /-- The page of a file that a private page has not been copied from yet. -/
  lazy : Nat → Option (Int × Nat) := fun _ => none

/-- The first page after the bytes `[start, start + len)`: lengths are rounded
up to whole pages. -/
def spanEnd (ps start len : Nat) : Nat := (start + len + ps - 1) / ps

/-- Page `p` is one of the pages a call on `[start, start + len)` acts on. -/
def InSpan (ps start len p : Nat) : Prop := start / ps ≤ p ∧ p < spanEnd ps start len

instance (ps start len p : Nat) : Decidable (InSpan ps start len p) :=
  inferInstanceAs (Decidable (_ ∧ _))

theorem InSpan.pos {ps start len p : Nat} (h : InSpan ps start len p) : 0 < ps := by
  refine Nat.pos_of_ne_zero fun hps => ?_
  subst hps
  exact absurd h.2 (by simp [spanEnd])

theorem inSpan_of_mem {ps start len a : Nat} (hps : 0 < ps)
    (hlo : start ≤ a) (hhi : a < start + len) : InSpan ps start len (a / ps) := by
  refine ⟨Nat.div_le_div_right hlo, ?_⟩
  rw [spanEnd, Nat.lt_iff_add_one_le, Nat.le_div_iff_mul_le hps]
  have hmod := Nat.div_add_mod a ps
  have hcomm : ps * (a / ps) = a / ps * ps := Nat.mul_comm _ _
  rw [Nat.add_mul]
  omega

/-- On a whole number of aligned pages the pages acted on are exactly those of
the bytes. -/
theorem inSpan_mono {ps start len start' len' p : Nat} (hlo : start' ≤ start)
    (hhi : start + len ≤ start' + len') (hp : InSpan ps start len p) : InSpan ps start' len' p := by
  refine ⟨(Nat.div_le_div_right hlo).trans hp.1, hp.2.trans_le ?_⟩
  exact Nat.div_le_div_right (by omega)

theorem mem_of_inSpan {ps start len a : Nat}
    (hstart : ps ∣ start) (hlen : ps ∣ len) (h : InSpan ps start len (a / ps)) :
    start ≤ a ∧ a < start + len := by
  have hps := h.pos
  obtain ⟨i, rfl⟩ := hstart
  obtain ⟨n, rfl⟩ := hlen
  obtain ⟨hlo, hhi⟩ := h
  have hend : spanEnd ps (ps * i) (ps * n) = i + n := by
    rw [spanEnd, ← Nat.mul_add]
    have : ps * (i + n) + ps - 1 = ps * (i + n) + (ps - 1) := by omega
    rw [this, Nat.mul_add_div hps, Nat.div_eq_of_lt (by omega), Nat.add_zero]
  rw [hend] at hhi
  rw [Nat.mul_div_cancel_left _ hps] at hlo
  have h1 : ps * i ≤ ps * (a / ps) := Nat.mul_le_mul_left _ hlo
  have h2 : ps * (a / ps + 1) ≤ ps * (i + n) := Nat.mul_le_mul_left _ hhi
  have hmod := Nat.div_add_mod a ps
  have hlt := Nat.mod_lt a hps
  rw [Nat.mul_add, Nat.mul_add] at h2
  omega

section

variable (ps : Nat)

namespace Memory

/-- The protection of page `p`, `PROT_NONE` where nothing is mapped. -/
def prot (m : Memory) (p : Nat) : Prot :=
  match m.pages p with
  | some pg => pg.prot
  | none => Prot.none

def backing (m : Memory) (p : Nat) : Backing :=
  match m.pages p with
  | some pg => pg.backing
  | none => .priv

/-- The cell that address `a` shows. -/
def cell (m : Memory) (a : Nat) : Cell :=
  match m.backing (a / ps), m.lazy (a / ps) with
  | .priv, none => .own a
  | .priv, some (f, p) => .file f (p * ps + a % ps)
  | .shared f p, _ => .file f (p * ps + a % ps)

/-- The cell that a write to address `a` changes. -/
def target (m : Memory) (a : Nat) : Cell :=
  match m.backing (a / ps) with
  | .priv => .own a
  | .shared f p => .file f (p * ps + a % ps)

def get (m : Memory) : Cell → UInt8
  | .own a => m.priv a
  | .file f o => m.files f o

def set (m : Memory) (c : Cell) (b : UInt8) : Memory :=
  match c with
  | .own a => { m with priv := fun x => if x = a then b else m.priv x }
  | .file f o => { m with files := fun g p => if g = f ∧ p = o then b else m.files g p }

/-- The byte at address `a`, whatever the protection of its page. -/
def read (m : Memory) (a : Nat) : UInt8 := m.get (m.cell ps a)

/-- A private page gets the copy of its own that the first write makes. -/
def copyPage (m : Memory) (p : Nat) : Memory :=
  { m with
    priv := fun x => if x / ps = p ∧ m.backing p = .priv then m.read ps x else m.priv x
    lazy := fun q => if q = p ∧ m.backing p = .priv then none else m.lazy q }

def write (m : Memory) (a : Nat) (b : UInt8) : Memory :=
  (m.copyPage ps (a / ps)).set (m.target ps a) b

/-- A store by code that runs under the page table: it takes effect only on a
writable page. -/
def store (m : Memory) (a : Nat) (b : UInt8) : Memory :=
  if (m.prot (a / ps)).write then m.write ps a b else m

/-- Stores one after the other. -/
def storeAll (m : Memory) (l : List (Nat × UInt8)) : Memory :=
  l.foldl (fun m s => m.store ps s.1 s.2) m

def readRange (m : Memory) (base size : Nat) : List UInt8 :=
  (List.range size).map fun i => m.read ps (base + i)

def writeBytes (m : Memory) (a : Nat) : List UInt8 → Memory
  | [] => m
  | b :: bs => (m.write ps a b).writeBytes (a + 1) bs

/-- A mapping of `[start, start + len)` placed at a fixed address. -/
def mmapFixed (m : Memory) (start len : Nat) (pr : Prot) (src : Source) : Memory where
  pages p :=
    if InSpan ps start len p then
      match src with
      | .sharedFile f off => some ⟨pr, .shared f (off / ps + (p - start / ps))⟩
      | _ => some ⟨pr, .priv⟩
    else m.pages p
  priv a := if InSpan ps start len (a / ps) then 0 else m.priv a
  files := m.files
  lazy p :=
    if InSpan ps start len p then
      match src with
      | .privateFile f off => some (f, off / ps + (p - start / ps))
      | _ => none
    else m.lazy p

def mprotect (m : Memory) (start len : Nat) (pr : Prot) : Memory :=
  { m with pages := fun p =>
      if InSpan ps start len p then (m.pages p).map fun pg => { pg with prot := pr }
      else m.pages p }

def munmap (m : Memory) (start len : Nat) : Memory :=
  { m with
    pages := fun p => if InSpan ps start len p then none else m.pages p
    lazy := fun p => if InSpan ps start len p then none else m.lazy p }

end Memory

end

namespace Memory

variable {ps : Nat} {m : Memory}

@[simp] theorem length_readRange (base size : Nat) :
    (m.readRange ps base size).length = size := by
  simp [readRange]

theorem getElem?_readRange {base size i : Nat} (h : i < size) :
    (m.readRange ps base size)[i]? = some (m.read ps (base + i)) := by
  simp [readRange, h]

/-! Protections. -/

theorem prot_eq_of_pages {m' : Memory} {p : Nat} (h : m'.pages p = m.pages p) :
    m'.prot p = m.prot p := by
  simp only [prot, h]

@[simp] theorem pages_set (c : Cell) (b : UInt8) : (m.set c b).pages = m.pages := by
  cases c <;> rfl

@[simp] theorem lazy_set (c : Cell) (b : UInt8) : (m.set c b).lazy = m.lazy := by
  cases c <;> rfl

@[simp] theorem pages_write (a : Nat) (b : UInt8) : (m.write ps a b).pages = m.pages :=
  pages_set _ _

@[simp] theorem backing_copyPage (p : Nat) : (m.copyPage ps p).backing = m.backing := rfl

@[simp] theorem prot_write (a : Nat) (b : UInt8) : (m.write ps a b).prot = m.prot := by
  funext p
  exact prot_eq_of_pages (by rw [pages_write])

@[simp] theorem backing_set (c : Cell) (b : UInt8) :
    (m.set c b).backing = m.backing := by
  funext p
  simp only [backing, pages_set]

@[simp] theorem backing_write (a : Nat) (b : UInt8) :
    (m.write ps a b).backing = m.backing := by
  rw [write, backing_set, backing_copyPage]

@[simp] theorem pages_store (a : Nat) (b : UInt8) : (m.store ps a b).pages = m.pages := by
  unfold store
  split
  · rw [pages_write]
  · rfl

@[simp] theorem prot_store (a : Nat) (b : UInt8) : (m.store ps a b).prot = m.prot := by
  funext p
  exact prot_eq_of_pages (by rw [pages_store])

@[simp] theorem backing_store (a : Nat) (b : UInt8) :
    (m.store ps a b).backing = m.backing := by
  funext p
  simp only [backing, pages_store]

@[simp] theorem pages_writeBytes (a : Nat) (bs : List UInt8) :
    (m.writeBytes ps a bs).pages = m.pages := by
  induction bs generalizing m a with
  | nil => rfl
  | cons b bs ih => rw [writeBytes, ih, pages_write]

@[simp] theorem prot_writeBytes (a : Nat) (bs : List UInt8) :
    (m.writeBytes ps a bs).prot = m.prot := by
  funext p
  exact prot_eq_of_pages (by rw [pages_writeBytes])

theorem pages_mmapFixed_of_not {start len p : Nat} {pr : Prot} {src : Source}
    (h : ¬InSpan ps start len p) :
    (m.mmapFixed ps start len pr src).pages p = m.pages p := by
  simp [mmapFixed, h]

theorem prot_mmapFixed {start len p : Nat} {pr : Prot} {src : Source} :
    (m.mmapFixed ps start len pr src).prot p =
      if InSpan ps start len p then pr else m.prot p := by
  by_cases h : InSpan ps start len p
  · cases src <;> simp [prot, mmapFixed, h]
  · simp [prot, mmapFixed, h]

theorem pages_mprotect_of_not {start len p : Nat} {pr : Prot}
    (h : ¬InSpan ps start len p) :
    (m.mprotect ps start len pr).pages p = m.pages p := by
  simp [mprotect, h]

theorem prot_mprotect_of_not {start len p : Nat} {pr : Prot}
    (h : ¬InSpan ps start len p) :
    (m.mprotect ps start len pr).prot p = m.prot p :=
  prot_eq_of_pages (pages_mprotect_of_not h)

theorem prot_mprotect_of_mapped {start len p : Nat} {pr : Prot}
    (h : InSpan ps start len p) (hmap : (m.pages p).isSome) :
    (m.mprotect ps start len pr).prot p = pr := by
  obtain ⟨pg, hpg⟩ := Option.isSome_iff_exists.mp hmap
  simp [prot, mprotect, h, hpg]

/-- A page that `mprotect` was asked to change has the new protection, or it
is not mapped and has none. -/
theorem prot_mprotect_or (m : Memory) (pr : Prot) {start len p : Nat} (h : InSpan ps start len p) :
    (m.mprotect ps start len pr).prot p = pr ∨
      (m.mprotect ps start len pr).prot p = Prot.none := by
  cases hpg : m.pages p with
  | none => exact .inr (by simp [prot, mprotect, h, hpg])
  | some pg => exact .inl (prot_mprotect_of_mapped h (by simp [hpg]))

@[simp] theorem backing_mprotect (start len : Nat) (pr : Prot) :
    (m.mprotect ps start len pr).backing = m.backing := by
  funext p
  by_cases h : InSpan ps start len p
  · cases hpg : m.pages p <;> simp [backing, mprotect, h, hpg]
  · simp [backing, mprotect, h]

theorem prot_munmap {start len p : Nat} :
    (m.munmap ps start len).prot p =
      if InSpan ps start len p then Prot.none else m.prot p := by
  by_cases h : InSpan ps start len p <;> simp [prot, munmap, h]

theorem backing_mmapFixed_of_not {start len p : Nat} {pr : Prot} {src : Source}
    (h : ¬InSpan ps start len p) :
    (m.mmapFixed ps start len pr src).backing p = m.backing p := by
  simp [backing, pages_mmapFixed_of_not h]

theorem backing_mmapFixed_of_private {start len p : Nat} {pr : Prot} {src : Source}
    (h : InSpan ps start len p) (hsrc : ∀ f off, src ≠ .sharedFile f off) :
    (m.mmapFixed ps start len pr src).backing p = .priv := by
  cases src with
  | anon => simp [backing, mmapFixed, h]
  | privateFile f off => simp [backing, mmapFixed, h]
  | sharedFile f off => exact absurd rfl (hsrc f off)

theorem lazy_mmapFixed_of_not {start len p : Nat} {pr : Prot} {src : Source}
    (h : ¬InSpan ps start len p) :
    (m.mmapFixed ps start len pr src).lazy p = m.lazy p := by
  simp [mmapFixed, h]

theorem lazy_munmap_of_not {start len p : Nat} (h : ¬InSpan ps start len p) :
    (m.munmap ps start len).lazy p = m.lazy p := by
  simp [munmap, h]

theorem backing_munmap_priv {start len p : Nat} (h : m.backing p = .priv) :
    (m.munmap ps start len).backing p = .priv := by
  by_cases hin : InSpan ps start len p
  · simp [backing, munmap, hin]
  · simpa [backing, munmap, hin] using h

/-! Contents. -/

theorem cell_congr {m' : Memory} {a : Nat} (h : m'.backing (a / ps) = m.backing (a / ps))
    (hl : m'.lazy (a / ps) = m.lazy (a / ps)) : m'.cell ps a = m.cell ps a := by
  simp only [cell, h, hl]

theorem target_congr {m' : Memory} {a : Nat} (h : m'.backing (a / ps) = m.backing (a / ps)) :
    m'.target ps a = m.target ps a := by
  simp only [target, h]

@[simp] theorem target_write (a x : Nat) (b : UInt8) :
    (m.write ps a b).target ps x = m.target ps x :=
  target_congr (by rw [backing_write])

@[simp] theorem target_store (a x : Nat) (b : UInt8) :
    (m.store ps a b).target ps x = m.target ps x :=
  target_congr (by rw [backing_store])

theorem get_set (c d : Cell) (b : UInt8) :
    (m.set c b).get d = if d = c then b else m.get d := by
  cases c <;> cases d <;> simp [set, get]

/-- A cell of its own is that of its own address. -/
theorem eq_of_cell_own {x a : Nat} (h : m.cell ps x = .own a) : x = a := by
  unfold cell at h
  split at h
  · exact Cell.own.inj h
  · cases h
  · cases h

theorem eq_of_target_own {x a : Nat} (h : m.target ps x = .own a) : x = a := by
  unfold target at h
  split at h
  · exact Cell.own.inj h
  · cases h

theorem backing_of_cell_own {x : Nat} (h : m.cell ps x = .own x) :
    m.backing (x / ps) = .priv := by
  unfold cell at h
  split at h
  · assumption
  · cases h
  · cases h

theorem target_of_priv {x : Nat} (h : m.backing (x / ps) = .priv) : m.target ps x = .own x := by
  rw [target, h]

/-- A write changes the file that an address shows exactly where the file is shared. -/
theorem cell_eq_target {a : Nat} {f : Int} {o : Nat} (h : m.target ps a = .file f o) :
    m.cell ps a = .file f o := by
  unfold target at h
  split at h
  · cases h
  · rename_i hback
    rw [← h, cell, hback]

/-- A page that shows no file yet to be copied is as before. -/
theorem copyPage_of_own {a : Nat} (h : m.cell ps a = .own a) : m.copyPage ps (a / ps) = m := by
  have hlazy : m.lazy (a / ps) = none := by
    have hback := backing_of_cell_own h
    rw [cell, hback] at h
    cases hl : m.lazy (a / ps) with
    | none => rfl
    | some fp => simp [hl] at h
  have hread : ∀ x, x / ps = a / ps → m.backing (a / ps) = .priv → m.read ps x = m.priv x := by
    intro x hx hback
    rw [read, cell, hx, hback, hlazy]
    rfl
  simp only [copyPage]
  congr 1
  · funext x
    split
    · rename_i hx
      exact hread x hx.1 hx.2
    · rfl
  · funext q
    split
    · rename_i hq
      rw [hq.1, hlazy]
    · rfl

theorem copyPage_of_file {a : Nat} {f : Int} {o : Nat} (h : m.target ps a = .file f o) :
    m.copyPage ps (a / ps) = m := by
  have hback : m.backing (a / ps) ≠ .priv := by
    intro hback
    rw [target_of_priv hback] at h
    cases h
  simp [copyPage, hback]

theorem cell_copyPage (p x : Nat) :
    (m.copyPage ps p).cell ps x =
      if x / ps = p ∧ m.backing p = .priv then .own x else m.cell ps x := by
  by_cases hx : x / ps = p ∧ m.backing p = .priv
  · obtain ⟨rfl, hpriv⟩ := hx
    have hlazy : (m.copyPage ps (x / ps)).lazy (x / ps) = none := if_pos ⟨rfl, hpriv⟩
    rw [if_pos ⟨rfl, hpriv⟩, cell, backing_copyPage, hpriv, hlazy]
  · rw [if_neg hx]
    exact cell_congr rfl (if_neg hx)

@[simp] theorem read_copyPage (p x : Nat) : (m.copyPage ps p).read ps x = m.read ps x := by
  rw [read, cell_copyPage]
  split
  · rename_i hx
    exact if_pos hx
  · rename_i hx
    rw [read]
    cases hcell : m.cell ps x with
    | own a =>
        obtain rfl := eq_of_cell_own hcell
        exact if_neg hx
    | file f o => rfl

/-- The page that is written to has its own copy then. -/
theorem cell_write (a x : Nat) (b : UInt8) :
    (m.write ps a b).cell ps x =
      if x / ps = a / ps ∧ m.backing (a / ps) = .priv then .own x else m.cell ps x := by
  rw [← cell_copyPage]
  exact cell_congr (by rw [write, backing_set]) (by rw [write, lazy_set])

theorem cell_write_own {a x : Nat} {b : UInt8} (h : m.cell ps x = .own x) :
    (m.write ps a b).cell ps x = .own x := by
  rw [cell_write, h, ite_self]

theorem cell_store_own {a x : Nat} {b : UInt8} (h : m.cell ps x = .own x) :
    (m.store ps a b).cell ps x = .own x := by
  unfold store
  split
  · exact cell_write_own h
  · exact h

theorem read_write (a x : Nat) (b : UInt8) :
    (m.write ps a b).read ps x =
      if x = a ∨ m.cell ps x = m.target ps a then b else m.read ps x := by
  have hcell : (m.copyPage ps (a / ps)).cell ps x = m.target ps a ↔
      x = a ∨ m.cell ps x = m.target ps a := by
    rw [cell_copyPage]
    cases hback : m.backing (a / ps) with
    | priv =>
        rw [target_of_priv hback]
        split
        · rename_i hx
          refine ⟨fun h => .inl (Cell.own.inj h), ?_⟩
          rintro (rfl | h)
          · rfl
          · rw [eq_of_cell_own h]
        · rename_i hx
          refine ⟨.inr, ?_⟩
          rintro (rfl | h)
          · exact absurd ⟨rfl, rfl⟩ hx
          · exact h
    | shared f p =>
        have htarget : m.target ps a = .file f (p * ps + a % ps) := by rw [target, hback]
        rw [if_neg (by simp)]
        refine ⟨.inr, ?_⟩
        rintro (rfl | h)
        · rw [cell_eq_target htarget, htarget]
        · exact h
  have hread : (m.write ps a b).read ps x =
      (m.write ps a b).get ((m.copyPage ps (a / ps)).cell ps x) := by
    rw [read, cell_congr (m := m.copyPage ps (a / ps)) (by rw [write, backing_set])
      (by rw [write, lazy_set])]
  rw [hread, write, get_set]
  simp only [hcell]
  split
  · rfl
  · exact read_copyPage _ _

theorem store_eq_self {a : Nat} {b : UInt8} (h : (m.prot (a / ps)).write = false) :
    m.store ps a b = m := by
  simp [store, h]

theorem read_store_of_ne {a x : Nat} {b : UInt8} (hne : x ≠ a)
    (h : m.cell ps x ≠ m.target ps a) : (m.store ps a b).read ps x = m.read ps x := by
  unfold store
  split
  · rw [read_write, if_neg (not_or.mpr ⟨hne, h⟩)]
  · rfl

theorem read_store_of_eq {a x : Nat} {b : UInt8} (hw : (m.prot (a / ps)).write = true)
    (h : x = a ∨ m.cell ps x = m.target ps a) : (m.store ps a b).read ps x = b := by
  rw [store, if_pos hw, read_write, if_pos h]

/-- A store elsewhere changes nothing on an address that shows no file. -/
theorem read_store_of_own {a x : Nat} {b : UInt8} (hne : x ≠ a) (h : m.cell ps x = .own x) :
    (m.store ps a b).read ps x = m.read ps x := by
  refine read_store_of_ne hne ?_
  rw [h, target]
  split
  · exact fun heq => hne (Cell.own.inj heq)
  · simp

/-- A store changes nothing on a page that is not writable, where no file is written to. -/
theorem read_store_of_priv {a x : Nat} {b : UInt8} (ha : m.backing (a / ps) = .priv)
    (hw : (m.prot (x / ps)).write = false) : (m.store ps a b).read ps x = m.read ps x := by
  by_cases hxa : x = a
  · rw [← hxa, store_eq_self hw]
  · refine read_store_of_ne hxa ?_
    rw [target_of_priv ha]
    exact fun hcell => hxa (eq_of_cell_own hcell)

theorem read_congr {m' : Memory} {a : Nat} (hb : m'.backing (a / ps) = m.backing (a / ps))
    (hl : m'.lazy (a / ps) = m.lazy (a / ps)) (hp : m'.priv a = m.priv a)
    (hf : m'.files = m.files) : m'.read ps a = m.read ps a := by
  rw [read, read, cell_congr hb hl]
  cases hcell : m.cell ps a with
  | own x =>
      obtain rfl := eq_of_cell_own hcell
      exact hp
  | file f o => simp only [get, hf]

@[simp] theorem read_mprotect (start len : Nat) (pr : Prot) (a : Nat) :
    (m.mprotect ps start len pr).read ps a = m.read ps a :=
  read_congr (by rw [backing_mprotect]) rfl rfl rfl

@[simp] theorem readRange_mprotect (start len : Nat) (pr : Prot) (base size : Nat) :
    (m.mprotect ps start len pr).readRange ps base size = m.readRange ps base size := by
  simp [readRange]

theorem read_mmapFixed_of_not {start len a : Nat} {pr : Prot} {src : Source}
    (h : ¬InSpan ps start len (a / ps)) :
    (m.mmapFixed ps start len pr src).read ps a = m.read ps a := by
  apply read_congr
  · simp [backing, mmapFixed, h]
  · simp [mmapFixed, h]
  · simp [mmapFixed, h]
  · rfl

theorem read_munmap_of_not {start len a : Nat} (h : ¬InSpan ps start len (a / ps)) :
    (m.munmap ps start len).read ps a = m.read ps a := by
  apply read_congr
  · simp [backing, munmap, h]
  · simp [munmap, h]
  · rfl
  · rfl

theorem readRange_congr {m' : Memory} {base size : Nat}
    (h : ∀ a, base ≤ a → a < base + size → m'.read ps a = m.read ps a) :
    m'.readRange ps base size = m.readRange ps base size := by
  apply List.map_congr_left
  intro i hi
  exact h (base + i) (by omega) (by simp at hi; omega)

theorem read_eq_of_readRange_eq {m' : Memory} {base size a : Nat}
    (h : m'.readRange ps base size = m.readRange ps base size)
    (hlo : base ≤ a) (hhi : a < base + size) : m'.read ps a = m.read ps a := by
  have hget := congrArg (·[a - base]?) h
  simp only [getElem?_readRange (show a - base < size by omega)] at hget
  simpa [show base + (a - base) = a by omega] using hget

/-- Two memories that differ in protections only. -/
structure SameBytes (m m' : Memory) : Prop where
  backing : m.backing = m'.backing
  lazy : m.lazy = m'.lazy
  priv : m.priv = m'.priv
  files : m.files = m'.files

namespace SameBytes

variable {m' m'' : Memory}

theorem refl (m : Memory) : SameBytes m m := ⟨rfl, rfl, rfl, rfl⟩

theorem trans (h : SameBytes m m') (h' : SameBytes m' m'') : SameBytes m m'' :=
  ⟨h.backing.trans h'.backing, h.lazy.trans h'.lazy, h.priv.trans h'.priv,
    h.files.trans h'.files⟩

theorem mprotect (start len : Nat) (pr : Prot) : SameBytes (m.mprotect ps start len pr) m :=
  ⟨backing_mprotect start len pr, rfl, rfl, rfl⟩

theorem cell (h : SameBytes m m') (a : Nat) : m.cell ps a = m'.cell ps a :=
  cell_congr (by rw [h.backing]) (by rw [h.lazy])

theorem target (h : SameBytes m m') (a : Nat) : m.target ps a = m'.target ps a :=
  target_congr (by rw [h.backing])

theorem read (h : SameBytes m m') (a : Nat) : m.read ps a = m'.read ps a :=
  read_congr (by rw [h.backing]) (by rw [h.lazy]) (by rw [h.priv]) h.files

theorem readRange (h : SameBytes m m') (base size : Nat) :
    m.readRange ps base size = m'.readRange ps base size :=
  readRange_congr fun a _ _ => h.read a

theorem set (h : SameBytes m m') (c : Cell) (b : UInt8) :
    SameBytes (m.set c b) (m'.set c b) := by
  refine ⟨by rw [backing_set, backing_set, h.backing], by rw [lazy_set, lazy_set, h.lazy], ?_, ?_⟩
  · cases c <;> simp [Memory.set, h.priv]
  · cases c <;> simp [Memory.set, h.files]

theorem copyPage (h : SameBytes m m') (p : Nat) :
    SameBytes (m.copyPage ps p) (m'.copyPage ps p) := by
  refine ⟨h.backing, ?_, ?_, h.files⟩
  · simp only [Memory.copyPage, h.backing, h.lazy]
  · simp only [Memory.copyPage, h.backing, h.priv, h.read]

/-- A store that takes effect in the first memory takes effect in the second
one, when that allows all the first one allows. -/
theorem store (h : SameBytes m m') {a : Nat} (b : UInt8)
    (hw : (m.prot (a / ps)).write = true) (hw' : (m'.prot (a / ps)).write = true) :
    SameBytes (m.store ps a b) (m'.store ps a b) := by
  rw [Memory.store, if_pos hw, Memory.store, if_pos hw', write, write, h.target]
  exact (h.copyPage _).set _ _

end SameBytes

/-- `m` has the contents that some stores give to `m'`. -/
def Fed (ps : Nat) (m m' : Memory) : Prop :=
  ∃ stores, SameBytes m (m'.storeAll ps stores)

@[simp] theorem pages_storeAll (l : List (Nat × UInt8)) :
    (m.storeAll ps l).pages = m.pages := by
  induction l generalizing m with
  | nil => rfl
  | cons s l ih => exact (ih (m := m.store ps s.1 s.2)).trans (pages_store _ _)

@[simp] theorem prot_storeAll (l : List (Nat × UInt8)) :
    (m.storeAll ps l).prot = m.prot := by
  funext p
  exact prot_eq_of_pages (by rw [pages_storeAll])

theorem storeAll_concat (l : List (Nat × UInt8)) (a : Nat) (b : UInt8) :
    m.storeAll ps (l ++ [(a, b)]) = (m.storeAll ps l).store ps a b := by
  simp [storeAll]

namespace Fed

variable {m' m'' : Memory}

theorem refl (m : Memory) : Fed ps m m := ⟨[], .refl _⟩

theorem of_sameBytes (h : Fed ps m m') (hs : SameBytes m'' m) : Fed ps m'' m' := by
  obtain ⟨stores, heq⟩ := h
  exact ⟨stores, hs.trans heq⟩

theorem store (h : Fed ps m m') {a : Nat} {b : UInt8}
    (hw : (m.prot (a / ps)).write = true → (m'.prot (a / ps)).write = true) :
    Fed ps (m.store ps a b) m' := by
  by_cases hpage : (m.prot (a / ps)).write = true
  · obtain ⟨stores, heq⟩ := h
    refine ⟨stores ++ [(a, b)], ?_⟩
    rw [storeAll_concat]
    exact heq.store b hpage (by rw [prot_storeAll]; exact hw hpage)
  · rwa [store_eq_self (Bool.eq_false_of_not_eq_true hpage)]

end Fed

/-- A store changes the bytes of a range through a writable page only, and only
where it writes to a byte of the range or to a cell that one shows. -/
theorem readRange_store_or (ps : Nat) (m : Memory) (base size a : Nat) (b : UInt8) :
    (m.store ps a b).readRange ps base size = m.readRange ps base size ∨
      (m.prot (a / ps)).write = true ∧
        ∃ x, base ≤ x ∧ x < base + size ∧ (x = a ∨ m.cell ps x = m.target ps a) := by
  by_cases hw : (m.prot (a / ps)).write = true
  · by_cases hx : ∃ x, base ≤ x ∧ x < base + size ∧ (x = a ∨ m.cell ps x = m.target ps a)
    · exact .inr ⟨hw, hx⟩
    · refine .inl (readRange_congr fun x hlo hhi => ?_)
      exact read_store_of_ne (fun heq => hx ⟨x, hlo, hhi, .inl heq⟩)
        fun hcell => hx ⟨x, hlo, hhi, .inr hcell⟩
  · exact .inl (by rw [store_eq_self (Bool.eq_false_of_not_eq_true hw)])

end Memory

end LfiRuntime.PagedMemory
