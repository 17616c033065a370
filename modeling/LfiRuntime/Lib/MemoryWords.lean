import LfiRuntime.Lib.PagedMemory

/-!
Strings of bytes and 64-bit words in a paged memory, which may be written through
one mapping of a file and read through another.
-/

namespace LfiRuntime.PagedMemory

/-- The lowest `n` bytes of a number, lowest first. -/
def leBytes : Nat → Nat → List UInt8
  | 0, _ => []
  | n + 1, v => UInt8.ofNat v :: leBytes n (v / 256)

def ofBytes : List UInt8 → Nat
  | [] => 0
  | b :: bs => b.toNat + 256 * ofBytes bs

@[simp] theorem length_leBytes (n v : Nat) : (leBytes n v).length = n := by
  induction n generalizing v with
  | zero => rfl
  | succ n ih => rw [leBytes, List.length_cons, ih]

theorem ofBytes_leBytes (n v : Nat) : ofBytes (leBytes n v) = v % 256 ^ n := by
  induction n generalizing v with
  | zero => simp [leBytes, ofBytes, Nat.mod_one]
  | succ n ih =>
      rw [leBytes, ofBytes, ih, Nat.pow_succ', Nat.mod_mul]
      simp

theorem ofNat_ofBytes_leBytes (v : BitVec 64) :
    BitVec.ofNat 64 (ofBytes (leBytes 8 v.toNat)) = v := by
  apply BitVec.eq_of_toNat_eq
  rw [ofBytes_leBytes, BitVec.toNat_ofNat]
  have hlt := v.isLt
  omega

/-- `F` with the bytes `bs` from `o` on. -/
def patch (F : Nat → UInt8) (o : Nat) (bs : List UInt8) : Nat → UInt8 := fun p =>
  if o ≤ p ∧ p < o + bs.length then bs.getD (p - o) 0 else F p

/-- The `n` bytes of `F` from `o` on. -/
def bytesAt (F : Nat → UInt8) (o n : Nat) : List UInt8 := (List.range n).map fun k => F (o + k)

/-- The 64-bit word of `F` at `o`. -/
def wordAt (F : Nat → UInt8) (o : Nat) : BitVec 64 := BitVec.ofNat 64 (ofBytes (bytesAt F o 8))

section

variable {F G : Nat → UInt8} {o p n : Nat} {bs : List UInt8}

theorem patch_of_not (h : p < o ∨ o + bs.length ≤ p) : patch F o bs p = F p :=
  if_neg (by omega)

@[simp] theorem patch_nil (F : Nat → UInt8) (o : Nat) : patch F o [] = F := by
  funext p
  apply patch_of_not
  simp only [List.length_nil]
  omega

theorem patch_cons (F : Nat → UInt8) (o : Nat) (b : UInt8) (bs : List UInt8) :
    patch (Function.update F o b) (o + 1) bs = patch F o (b :: bs) := by
  funext p
  unfold patch
  rw [List.length_cons]
  by_cases hp : p = o
  · subst hp
    rw [if_neg (by omega), if_pos (by omega), Function.update_self, Nat.sub_self]
    rfl
  · rw [Function.update_of_ne hp]
    by_cases hin : o + 1 ≤ p ∧ p < o + 1 + bs.length
    · rw [if_pos hin, if_pos (by omega), show p - o = p - (o + 1) + 1 by omega]
      rfl
    · rw [if_neg hin, if_neg (by omega)]

theorem bytesAt_congr (h : ∀ k, k < n → G (o + k) = F (o + k)) : bytesAt G o n = bytesAt F o n := by
  apply List.map_congr_left
  intro k hk
  exact h k (by simpa using hk)

theorem bytesAt_patch_of_not (h : o + n ≤ p ∨ p + bs.length ≤ o) :
    bytesAt (patch F p bs) o n = bytesAt F o n :=
  bytesAt_congr fun k hk => patch_of_not (by omega)

theorem bytesAt_patch_self : bytesAt (patch F o bs) o bs.length = bs := by
  apply List.ext_getElem
  · simp [bytesAt]
  · intro k hk hk'
    simp only [bytesAt, List.getElem_map, List.getElem_range, patch]
    rw [if_pos (by omega), Nat.add_sub_cancel_left, List.getD_eq_getElem?_getD,
      List.getElem?_eq_getElem hk', Option.getD_some]

/-! Copies of one string at many places. -/

/-- `F` with the bytes `bs` at each place of the list. -/
def patchAll (F : Nat → UInt8) (places : List Nat) (bs : List UInt8) : Nat → UInt8 :=
  places.foldl (fun F o => patch F o bs) F

theorem patchAll_of_not (places : List Nat)
    (h : ∀ o ∈ places, p < o ∨ o + bs.length ≤ p) : patchAll F places bs p = F p := by
  induction places generalizing F with
  | nil => rfl
  | cons o places ih =>
      rw [patchAll, List.foldl_cons, ← patchAll, ih fun o' ho' => h o' (List.mem_cons_of_mem _ ho')]
      exact patch_of_not (h o List.mem_cons_self)

theorem bytesAt_patchAll (places : List Nat)
    (hapart : ∀ o ∈ places, ∀ o' ∈ places, o ≠ o' → o + bs.length ≤ o' ∨ o' + bs.length ≤ o)
    (ho : o ∈ places) : bytesAt (patchAll F places bs) o bs.length = bs := by
  induction places using List.reverseRecOn with
  | nil => cases ho
  | append_singleton places last ih =>
      have hlast : patchAll F (places ++ [last]) bs = patch (patchAll F places bs) last bs :=
        List.foldl_append
      rw [hlast]
      by_cases heq : o = last
      · subst heq
        exact bytesAt_patch_self
      · have hmem : o ∈ places := by simpa [heq] using ho
        rw [bytesAt_patch_of_not (hapart o ho last (by simp) heq)]
        exact ih (fun a ha b hb => hapart a (by simp [ha]) b (by simp [hb])) hmem

theorem wordAt_patch_of_not (h : o + 8 ≤ p ∨ p + bs.length ≤ o) :
    wordAt (patch F p bs) o = wordAt F o := by
  rw [wordAt, wordAt, bytesAt_patch_of_not h]

theorem wordAt_patch_self (v : BitVec 64) : wordAt (patch F o (leBytes 8 v.toNat)) o = v := by
  have hbytes := @bytesAt_patch_self F o (leBytes 8 v.toNat)
  rw [length_leBytes] at hbytes
  rw [wordAt, hbytes, ofNat_ofBytes_leBytes]

end

namespace Memory

variable {ps : Nat} {m : Memory} {f : Int} {a o n : Nat} {bs : List UInt8}

/-- A 64-bit load. -/
def load64 (ps : Nat) (m : Memory) (a : Nat) : BitVec 64 :=
  BitVec.ofNat 64 (ofBytes (m.readRange ps a 8))

/-- A 64-bit store by the host, whatever the protection of the page. -/
def store64 (ps : Nat) (m : Memory) (a : Nat) (v : BitVec 64) : Memory :=
  m.writeBytes ps a (leBytes 8 v.toNat)

/-- A range that shows a file has the bytes of the file. -/
theorem readRange_file (h : ∀ k, k < n → m.cell ps (a + k) = .file f (o + k)) :
    m.readRange ps a n = bytesAt (m.files f) o n := by
  apply List.map_congr_left
  intro k hk
  rw [read, h k (by simpa using hk)]
  rfl

theorem load64_file (h : ∀ k, k < 8 → m.cell ps (a + k) = .file f (o + k)) :
    m.load64 ps a = wordAt (m.files f) o := by
  rw [load64, readRange_file h, wordAt]

theorem readRange_own (h : ∀ k, k < n → m.cell ps (a + k) = .own (a + k)) :
    m.readRange ps a n = bytesAt m.priv a n := by
  apply List.map_congr_left
  intro k hk
  rw [read, h k (by simpa using hk)]
  rfl

theorem write_file {b : UInt8} (h : m.target ps a = .file f o) :
    m.write ps a b =
      { m with files := Function.update m.files f (Function.update (m.files f) o b) } := by
  rw [write, copyPage_of_file h, h, set]
  congr 1
  funext g p
  by_cases hg : g = f
  · subst hg
    by_cases hp : p = o <;> simp [hp]
  · simp [hg]

/-- What is written through a shared mapping of a file gets into the file. -/
theorem writeBytes_file (h : ∀ k, k < bs.length → m.target ps (a + k) = .file f (o + k)) :
    m.writeBytes ps a bs =
      { m with files := Function.update m.files f (patch (m.files f) o bs) } := by
  induction bs generalizing m a o with
  | nil => simp [writeBytes]
  | cons b bs ih =>
      have hhead : m.target ps a = .file f o := h 0 (by simp)
      rw [writeBytes, ih (o := o + 1), write_file hhead]
      · simp only [Function.update_self, Function.update_idem, patch_cons]
      · intro k hk
        have hnext := h (k + 1) (by simpa using hk)
        rw [show a + (k + 1) = a + 1 + k by omega, show o + (k + 1) = o + 1 + k by omega] at hnext
        rw [target_write, hnext]

theorem write_own {b : UInt8} (h : m.cell ps a = .own a) :
    m.write ps a b = { m with priv := Function.update m.priv a b } := by
  rw [write, copyPage_of_own h, target_of_priv (backing_of_cell_own h), set]
  congr 1
  funext p
  by_cases hp : p = a <;> simp [hp]

theorem writeBytes_own (h : ∀ k, k < bs.length → m.cell ps (a + k) = .own (a + k)) :
    m.writeBytes ps a bs = { m with priv := patch m.priv a bs } := by
  induction bs generalizing m a with
  | nil => simp [writeBytes]
  | cons b bs ih =>
      have hhead : m.cell ps a = .own a := h 0 (by simp)
      rw [writeBytes, ih, write_own hhead]
      · simp only [patch_cons]
      · intro k hk
        have hnext := h (k + 1) (by simpa using hk)
        rw [show a + (k + 1) = a + 1 + k by omega] at hnext
        exact cell_write_own hnext

@[simp] theorem target_writeBytes (a x : Nat) (bs : List UInt8) :
    (m.writeBytes ps a bs).target ps x = m.target ps x := by
  induction bs generalizing m a with
  | nil => rfl
  | cons b bs ih => rw [writeBytes, ih, target_write]

theorem cell_writeBytes_own (bs : List UInt8) {x : Nat} (h : m.cell ps x = .own x) :
    (m.writeBytes ps a bs).cell ps x = .own x := by
  induction bs generalizing m a with
  | nil => exact h
  | cons b bs ih => exact ih (cell_write_own h)

@[simp] theorem backing_writeBytes (a : Nat) (bs : List UInt8) :
    (m.writeBytes ps a bs).backing = m.backing := by
  funext p
  simp only [backing, pages_writeBytes]

/-- Copies written through a mapping of a file. -/
theorem foldl_writeBytes_file (places : List Nat)
    (h : ∀ i ∈ places, ∀ k, k < bs.length → m.target ps (a + i + k) = .file f (i + k)) :
    places.foldl (fun m i => m.writeBytes ps (a + i) bs) m =
      { m with files := Function.update m.files f (patchAll (m.files f) places bs) } := by
  induction places generalizing m with
  | nil => simp [patchAll]
  | cons i places ih =>
      rw [List.foldl_cons, ih, writeBytes_file (h i List.mem_cons_self)]
      · simp only [Function.update_self, Function.update_idem]
        rfl
      · intro j hj k hk
        rw [target_writeBytes, h j (List.mem_cons_of_mem _ hj) k hk]

/-- Copies written to pages that are not shared. -/
theorem foldl_writeBytes_own (places : List Nat)
    (h : ∀ i ∈ places, ∀ k, k < bs.length → m.cell ps (i + k) = .own (i + k)) :
    places.foldl (fun m i => m.writeBytes ps i bs) m =
      { m with priv := patchAll m.priv places bs } := by
  induction places generalizing m with
  | nil => rfl
  | cons i places ih =>
      rw [List.foldl_cons, ih, writeBytes_own (h i List.mem_cons_self)]
      · rfl
      · intro j hj k hk
        exact cell_writeBytes_own bs (h j (List.mem_cons_of_mem _ hj) k hk)

theorem pages_foldl_writeBytes {ι : Type*} (l : List ι) (o : ι → Nat) :
    (l.foldl (fun m i => m.writeBytes ps (o i) bs) m).pages = m.pages := by
  induction l generalizing m with
  | nil => rfl
  | cons i l ih => rw [List.foldl_cons, ih, pages_writeBytes]

/-- Pages that are not written to stay as they are to be copied. -/
theorem lazy_writeBytes {p : Nat} (h : ∀ k, k < bs.length → (a + k) / ps ≠ p) :
    (m.writeBytes ps a bs).lazy p = m.lazy p := by
  induction bs generalizing m a with
  | nil => rfl
  | cons b bs ih =>
      have hhead : a / ps ≠ p := h 0 (by simp)
      rw [writeBytes, ih]
      · rw [write, lazy_set]
        exact if_neg fun hp => hhead hp.1.symm
      · intro k hk
        have hnext := h (k + 1) (by simpa using hk)
        rwa [show a + 1 + k = a + (k + 1) by omega]

/-- A write to pages that are not shared changes no file. -/
theorem files_writeBytes (h : ∀ k, k < bs.length → m.backing ((a + k) / ps) = .priv) :
    (m.writeBytes ps a bs).files = m.files := by
  induction bs generalizing m a with
  | nil => rfl
  | cons b bs ih =>
      have hhead : m.backing (a / ps) = .priv := h 0 (by simp)
      have hwrite : (m.write ps a b).files = m.files := by
        rw [write, target_of_priv hhead]
        rfl
      rw [writeBytes, ih, hwrite]
      intro k hk
      have hnext := h (k + 1) (by simpa using hk)
      rwa [backing_write, show a + 1 + k = a + (k + 1) by omega]

/-- What a memory holds after a write to pages that are not shared. -/
theorem read_writeBytes (h : ∀ k, k < bs.length → m.backing ((a + k) / ps) = .priv) (x : Nat) :
    (m.writeBytes ps a bs).read ps x = patch (m.read ps) a bs x := by
  induction bs generalizing m a with
  | nil => simp [writeBytes]
  | cons b bs ih =>
      have hhead : m.backing (a / ps) = .priv := h 0 (by simp)
      have hwrite : (m.write ps a b).read ps = Function.update (m.read ps) a b := by
        funext y
        rw [read_write, target_of_priv hhead, Function.update_apply]
        refine if_congr ⟨?_, .inl⟩ rfl rfl
        rintro (rfl | hcell)
        · rfl
        · exact eq_of_cell_own hcell
      rw [writeBytes, ih, hwrite, patch_cons]
      intro k hk
      have hnext := h (k + 1) (by simpa using hk)
      rwa [backing_write, show a + 1 + k = a + (k + 1) by omega]

/-- Bytes of a file that is changed elsewhere stay. -/
theorem readRange_files {G : Nat → UInt8}
    (h : ∀ k, k < n → ∀ o, m.cell ps (a + k) = .file f o → G o = m.files f o) :
    Memory.readRange ps { m with files := Function.update m.files f G } a n =
      m.readRange ps a n := by
  apply List.map_congr_left
  intro k hk
  have hcell : Memory.cell ps { m with files := Function.update m.files f G } (a + k) =
      m.cell ps (a + k) := rfl
  rw [read, read, hcell]
  cases hc : m.cell ps (a + k) with
  | own x => rfl
  | file g o =>
      by_cases hg : g = f
      · subst hg
        simp only [get, Function.update_self]
        exact h k (by simpa using hk) o hc
      · simp only [get, Function.update_of_ne hg]

/-- A shared mapping of a file from its start. -/
theorem target_mmapFixed_shared {start len off : Nat} {pr : Prot} (hps : 0 < ps)
    (hal : ps ∣ start) (hoff : off < len) :
    (m.mmapFixed ps start len pr (.sharedFile f 0)).target ps (start + off) = .file f off := by
  have hin := inSpan_of_mem hps (Nat.le_add_right start off) (Nat.add_lt_add_left hoff start)
  obtain ⟨i, rfl⟩ := hal
  have hpage : (ps * i + off) / ps = i + off / ps := Nat.mul_add_div hps i off
  have hmod : (ps * i + off) % ps = off % ps := Nat.mul_add_mod ps i off
  have hdiv := Nat.div_add_mod' off ps
  rw [hpage] at hin
  rw [target, backing, hpage, hmod]
  simp only [mmapFixed, if_pos hin, Nat.zero_div, Nat.zero_add, Nat.mul_div_cancel_left _ hps,
    Nat.add_sub_cancel_left, hdiv]

theorem cell_mmapFixed_of_not {start len x : Nat} {pr : Prot} {src : Source}
    (h : ¬InSpan ps start len (x / ps)) :
    (m.mmapFixed ps start len pr src).cell ps x = m.cell ps x :=
  cell_congr (backing_mmapFixed_of_not h) (lazy_mmapFixed_of_not h)

theorem target_mmapFixed_of_not {start len x : Nat} {pr : Prot} {src : Source}
    (h : ¬InSpan ps start len (x / ps)) :
    (m.mmapFixed ps start len pr src).target ps x = m.target ps x :=
  target_congr (backing_mmapFixed_of_not h)

theorem cell_mmapFixed_anon {start len x : Nat} {pr : Prot} (h : InSpan ps start len (x / ps)) :
    (m.mmapFixed ps start len pr .anon).cell ps x = .own x := by
  have hlazy : (m.mmapFixed ps start len pr .anon).lazy (x / ps) = none := if_pos h
  rw [cell, backing_mmapFixed_of_private h (by simp), hlazy]

theorem cell_munmap_of_not {start len x : Nat} (h : ¬InSpan ps start len (x / ps)) :
    (m.munmap ps start len).cell ps x = m.cell ps x := by
  apply cell_congr
  · simp [backing, munmap, h]
  · exact lazy_munmap_of_not h

theorem cell_mprotect {start len x : Nat} {pr : Prot} :
    (m.mprotect ps start len pr).cell ps x = m.cell ps x :=
  cell_congr (by rw [backing_mprotect]) rfl

end Memory

end LfiRuntime.PagedMemory
