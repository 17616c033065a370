import LfiRuntime.Box.ExecVerified
import LfiRuntime.Box.MapSpec
import LfiRuntime.Lib.MemoryWords

/-!
What a call on the memory of a box may do to a page, whatever it is called with.
-/

namespace LfiRuntime.Box

open LfiRuntime.PagedMemory
open LfiRuntime.Config
open LfiRuntime.HostCalls
open LfiRuntime.Mmap

/-- Each address shows what it has shown, or memory of its own, or a cell that `F` allows.
A write to it changes the cell that it has changed, or memory of its own, or a cell that `G`
allows. -/
structure CellsFrom (ps : Nat) (F G : Nat → Cell → Prop) (m m' : Memory) : Prop where
  cell : ∀ x, m'.cell ps x = m.cell ps x ∨ m'.cell ps x = .own x ∨ F x (m'.cell ps x)
  target : ∀ x, m'.target ps x = m.target ps x ∨ m'.target ps x = .own x ∨ G x (m'.target ps x)

/-- The cell of a file that `x` shows in a mapping of the file from `start` on. -/
def mappedCell (ps start : Nat) (f : Int) (off x : Nat) : Cell :=
  .file f ((off / ps + (x / ps - start / ps)) * ps + x % ps)

/-- A mapping shows cells that `F` allows, and a shared one has writes to cells that `G` allows. -/
structure Allows (ps : Nat) (F G : Nat → Cell → Prop) (start len : Nat) (src : Option Source) :
    Prop where
  shown : ∀ f off, src = some (.privateFile f off) ∨ src = some (.sharedFile f off) →
    ps ∣ start → ∀ x, InSpan ps start len (x / ps) → F x (mappedCell ps start f off x)
  written : ∀ f off, src = some (.sharedFile f off) → ps ∣ start →
    ∀ x, InSpan ps start len (x / ps) → G x (mappedCell ps start f off x)

/-- No cell but those of memory of one's own. -/
def noCells (_ : Nat) (_ : Cell) : Prop := False

/-- The file that a mapping with these arguments shows. -/
def mappedFd (flags : BitVec 32) (fd : Int) : Option Int :=
  if has flags LFI_MAP_ANONYMOUS then none else some fd

/-- The cells of the file. -/
def cellsOf (file : Option Int) (_ : Nat) (c : Cell) : Prop := ∃ f o, file = some f ∧ c = .file f o

section

variable {e : Engine} {box : LFIBox} {h : Host} {m m' m'' : Memory} {F G : Nat → Cell → Prop}
  {ps start len size addr p : Nat} {pr : Prot} {prot flags : BitVec 32} {fd off : Int}
  {src : Option Source} {noVerify : Bool}

theorem hostSource_file {f : Int} {o : Nat}
    (hsrc : hostSource ps flags fd off = some (.privateFile f o)) :
    mappedFd flags fd = some f := by
  unfold hostSource at hsrc
  split_ifs at hsrc with hkind hanon hpos hshared
  · cases hsrc
  · cases hsrc
  · rw [mappedFd, if_neg hanon, (Source.privateFile.inj (Option.some.inj hsrc)).1]

theorem allows_private (hs : has flags LFI_MAP_SHARED = false) :
    Allows e.opts.pagesize (cellsOf (mappedFd flags fd)) G start len
      (hostSource e.opts.pagesize flags fd off) := by
  refine ⟨fun f o hsrc _ x _ => ?_,
    fun f o hsrc => absurd hsrc (ExecVerified.hostSource_ne_shared hs f o)⟩
  rcases hsrc with hsrc | hsrc
  · exact ⟨f, _, hostSource_file hsrc, rfl⟩
  · exact absurd hsrc (ExecVerified.hostSource_ne_shared hs f o)

theorem allows_anon : Allows ps F G start len (some .anon) := by
  refine ⟨fun f off hsrc => ?_, fun f off hsrc => ?_⟩
  · rcases hsrc with hsrc | hsrc <;> cases Option.some.inj hsrc
  · cases Option.some.inj hsrc

namespace CellsFrom

theorem refl (m : Memory) : CellsFrom ps F G m m := ⟨fun _ => .inl rfl, fun _ => .inl rfl⟩

theorem of_sameBytes (h : Memory.SameBytes m' m) : CellsFrom ps F G m m' :=
  ⟨fun x => .inl (h.cell x), fun x => .inl (h.target x)⟩

theorem trans (h : CellsFrom ps F G m m') (h' : CellsFrom ps F G m' m'') :
    CellsFrom ps F G m m'' := by
  refine ⟨fun x => ?_, fun x => ?_⟩
  · rcases h'.cell x with heq | hown
    · rw [heq]
      exact h.cell x
    · exact .inr hown
  · rcases h'.target x with heq | hown
    · rw [heq]
      exact h.target x
    · exact .inr hown

/-- A write gives its page a copy of its own at most. -/
theorem write (m : Memory) (a : Nat) (b : UInt8) : CellsFrom ps F G m (m.write ps a b) := by
  refine ⟨fun x => ?_, fun x => .inl (Memory.target_write a x b)⟩
  rw [Memory.cell_write]
  split
  · exact .inr (.inl rfl)
  · exact .inl rfl

theorem store (m : Memory) (a : Nat) (b : UInt8) : CellsFrom ps F G m (m.store ps a b) := by
  unfold Memory.store
  split
  · exact write m a b
  · exact refl m

theorem writeBytes (m : Memory) (a : Nat) (bs : List UInt8) :
    CellsFrom ps F G m (m.writeBytes ps a bs) := by
  induction bs generalizing m a with
  | nil => exact refl m
  | cons b bs ih => exact (write m a b).trans (ih _ _)

theorem munmapMem (m : Memory) (start len : Nat) : CellsFrom ps F G m (m.munmap ps start len) := by
  have hcell : ∀ x, (m.munmap ps start len).backing (x / ps) = .priv ∧
      (m.munmap ps start len).lazy (x / ps) = none ∨ ¬InSpan ps start len (x / ps) := by
    intro x
    by_cases hin : InSpan ps start len (x / ps)
    · exact .inl ⟨by simp [Memory.backing, Memory.munmap, hin], if_pos hin⟩
    · exact .inr hin
  refine ⟨fun x => ?_, fun x => ?_⟩
  · rcases hcell x with ⟨hback, hlazy⟩ | hout
    · exact .inr (.inl (by rw [Memory.cell, hback, hlazy]))
    · exact .inl (Memory.cell_munmap_of_not hout)
  · rcases hcell x with ⟨hback, -⟩ | hout
    · exact .inr (.inl (Memory.target_of_priv hback))
    · refine .inl (Memory.target_congr ?_)
      simp [Memory.backing, Memory.munmap, hout]

theorem mmapFixed (m : Memory) (pr : Prot) {s : Source} (hF : Allows ps F G start len (some s))
    (hal : ps ∣ start) : CellsFrom ps F G m (m.mmapFixed ps start len pr s) := by
  refine ⟨fun x => ?_, fun x => ?_⟩
  · by_cases hin : InSpan ps start len (x / ps)
    · right
      cases s with
      | anon => exact .inl (Memory.cell_mmapFixed_anon hin)
      | privateFile f off =>
          have hcell : (m.mmapFixed ps start len pr (.privateFile f off)).cell ps x =
              mappedCell ps start f off x := by
            simp [Memory.cell, Memory.backing, Memory.mmapFixed, hin, mappedCell]
          rw [hcell]
          exact .inr (hF.shown f off (.inl rfl) hal x hin)
      | sharedFile f off =>
          have hcell : (m.mmapFixed ps start len pr (.sharedFile f off)).cell ps x =
              mappedCell ps start f off x := by
            simp [Memory.cell, Memory.backing, Memory.mmapFixed, hin, mappedCell]
          rw [hcell]
          exact .inr (hF.shown f off (.inr rfl) hal x hin)
    · exact .inl (Memory.cell_mmapFixed_of_not hin)
  · by_cases hin : InSpan ps start len (x / ps)
    · right
      cases s with
      | anon => exact .inl (Memory.target_of_priv (Memory.backing_mmapFixed_of_private hin (by simp)))
      | privateFile f off =>
          exact .inl (Memory.target_of_priv (Memory.backing_mmapFixed_of_private hin (by simp)))
      | sharedFile f off =>
          have htarget : (m.mmapFixed ps start len pr (.sharedFile f off)).target ps x =
              mappedCell ps start f off x := by
            simp [Memory.target, Memory.backing, Memory.mmapFixed, hin, mappedCell]
          rw [htarget]
          exact .inr (hF.written f off rfl hal x hin)
    · exact .inl (Memory.target_mmapFixed_of_not hin)

theorem mmap (h : Host) (pr : Prot) (hF : Allows ps F G start len src) :
    CellsFrom ps F G h.mem (HostCalls.mmap ps h start len pr src).2.mem := by
  rcases mmap_cases ps h start len pr src with ⟨s, rfl, -, hal, -, heq⟩ | ⟨-, n, -, heq⟩ | heq
  · rw [heq]
    exact mmapFixed _ _ hF (Nat.dvd_of_mod_eq_zero hal)
  · rw [heq]
    exact munmapMem ..
  · rw [heq]
    exact .refl _

theorem mprotect (h : Host) (pr : Prot) :
    CellsFrom ps F G h.mem (HostCalls.mprotect ps h start len pr).2.mem :=
  .of_sameBytes (sameBytes_mprotect ..)

theorem munmap (h : Host) : CellsFrom ps F G h.mem (HostCalls.munmap ps h start len).2.mem := by
  rcases munmap_cases ps h start len with ⟨-, n, -, heq⟩ | heq
  · rw [heq]
    exact munmapMem ..
  · rw [heq]
    exact .refl _

theorem mapmem (h : Host) (prot : BitVec 32)
    (hF : Allows e.opts.pagesize F G start len (hostSource e.opts.pagesize flags fd off)) :
    CellsFrom e.opts.pagesize F G h.mem (Box.mapmem e h start len prot flags fd off).2.mem := by
  have hmap := mmap h (hostProt e.target prot) hF
  simp only [Box.mapmem]
  split_ifs
  · exact hmap
  · exact (hmap.trans (mprotect ..)).trans (munmap _)
  · exact hmap.trans (mprotect ..)
  · exact hmap

theorem mapverify (h : Host) (prot : BitVec 32) (noVerify : Bool)
    (hF : Allows e.opts.pagesize F G start len (hostSource e.opts.pagesize flags fd off)) :
    CellsFrom e.opts.pagesize F G h.mem
      (Box.mapverify e h start len prot flags fd off noVerify).2.mem := by
  have hmap := mapmem h LFI_PROT_READ hF
  simp only [Box.mapverify]
  split_ifs
  · exact mapmem h prot hF
  · exact .refl _
  · exact hmap
  · rw [mem_lfivVerify]
    exact hmap
  · refine CellsFrom.trans ?_ (mprotect ..)
    rw [mem_lfivVerify]
    exact hmap

theorem foldl_cbunmap (pieces : List Piece) (h : Host) :
    CellsFrom e.opts.pagesize F G h.mem (pieces.foldl (cbunmap e) h).mem := by
  induction pieces generalizing h with
  | nil => exact .refl _
  | cons piece pieces ih =>
      refine CellsFrom.trans ?_ (ih _)
      have hmap := @mmap F G e.opts.pagesize piece.start piece.len _ h Prot.none allows_anon
      simp only [cbunmap]
      split_ifs
      · exact hmap
      · exact hmap.trans (mprotect ..)

theorem mapany (h : Host) (noVerify : Bool)
    (hF : ∀ addr mm, box.mm.mapAny 0 size ⟨prot, flags, fd, off⟩ = (some addr, mm) →
      Allows e.opts.pagesize F G addr size (hostSource e.opts.pagesize flags fd off)) :
    CellsFrom e.opts.pagesize F G h.mem
      (boxMapanyLocked e box h size prot flags fd off noVerify).2.2.mem := by
  simp only [boxMapanyLocked]
  split
  · exact .refl _
  · rename_i addr mm hmap
    have hverify := mapverify h prot noVerify (hF addr mm hmap)
    split_ifs
    · exact hverify.trans (foldl_cbunmap ..)
    · exact hverify

theorem mapat (h : Host) (hF : ∀ a mm pieces, box.mm.mapAt addr size ⟨prot, flags, fd, off⟩ =
    (some a, mm, pieces) → Allows e.opts.pagesize F G a size
      (hostSource e.opts.pagesize flags fd off)) :
    CellsFrom e.opts.pagesize F G h.mem
      (boxMapatLocked e box h addr size prot flags fd off).2.2.mem := by
  simp only [boxMapatLocked]
  split
  · exact .refl _
  · split
    · exact .refl _
    · rename_i a mm pieces hmap
      have hpieces := @foldl_cbunmap e F G pieces h
      have hverify := mapverify (pieces.foldl (cbunmap e) h) prot false (hF a mm pieces hmap)
      split_ifs
      · exact (hpieces.trans hverify).trans (foldl_cbunmap ..)
      · exact hpieces.trans hverify

theorem boxMprotect (h : Host) : CellsFrom e.opts.pagesize F G h.mem
    (boxMprotectLocked e box h addr size prot noVerify).2.2.mem := by
  have hprotect : CellsFrom e.opts.pagesize F G h.mem
      (protectverify e h addr size prot noVerify).2.mem :=
    .of_sameBytes (sameBytes_protectverify ..)
  simp only [boxMprotectLocked]
  split
  · exact .refl _
  · split
    · exact .refl _
    · split
      · exact hprotect
      · split <;> exact hprotect

theorem boxMunmap (h : Host) : CellsFrom e.opts.pagesize F G h.mem
    (boxMunmapLocked e box h addr size).2.2.mem := by
  simp only [boxMunmapLocked]
  have hmap := @mmap F G e.opts.pagesize addr
    ((size + e.opts.pagesize - 1) / e.opts.pagesize * e.opts.pagesize) _ h Prot.none allows_anon
  split
  · exact .refl _
  · split
    · exact hmap
    · split <;> exact hmap

end CellsFrom

theorem mapAny_of_boxMapany
    (hsome : (boxMapanyLocked e box h size prot flags fd off noVerify).1 = some addr) :
    (box.mm.mapAny 0 size ⟨prot, flags, fd, off⟩).1 = some addr := by
  simp only [boxMapanyLocked] at hsome
  split at hsome
  · cases hsome
  · rename_i heq
    split at hsome
    · cases hsome
    · rw [heq]
      exact hsome

end

/-! Execution. -/

/-- The page is as before, with what it holds. -/
structure SamePage (ps p : Nat) (m m' : Memory) : Prop where
  page : m'.pages p = m.pages p
  bytes : ∀ a, a / ps = p → m'.read ps a = m.read ps a

/-- The verifier has accepted what the page holds. -/
def Vetted (e : Engine) (m : Memory) (p : Nat) : Prop :=
  ∃ base bytes, e.lfivVerify base bytes = true ∧ ∀ a, a / e.opts.pagesize = p →
    base ≤ a ∧ bytes[a - base]? = some (m.read e.opts.pagesize a)

/-- A page is as before, or code cannot run there, or it is accepted and cannot be written. -/
def PageMove (e : Engine) (p : Nat) (m m' : Memory) : Prop :=
  SamePage e.opts.pagesize p m m' ∨ (m'.prot p).exec = false ∨
    (m'.prot p).write = false ∧ Vetted e m' p

section

variable {e : Engine} {box : LFIBox} {h : Host} {m m' m'' : Memory}
  {ps start len size addr p : Nat} {pr : Prot} {prot flags : BitVec 32} {fd off : Int}
  {src : Option Source}

theorem SamePage.refl (m : Memory) : SamePage ps p m m := ⟨rfl, fun _ _ => rfl⟩

theorem SamePage.trans (h : SamePage ps p m m') (h' : SamePage ps p m' m'') :
    SamePage ps p m m'' :=
  ⟨h'.page.trans h.page, fun a ha => (h'.bytes a ha).trans (h.bytes a ha)⟩

theorem SamePage.prot_eq (h : SamePage ps p m m') : m'.prot p = m.prot p :=
  Memory.prot_eq_of_pages h.page

theorem SamePage.target_eq (h : SamePage ps p m m') {a : Nat} (ha : a / ps = p) :
    m'.target ps a = m.target ps a := by
  apply Memory.target_congr
  rw [ha, Memory.backing, Memory.backing, h.page]

theorem samePage_of_within {h h' : Host} (hw : Within ps start len h h')
    (hp : ¬InSpan ps start len p) : SamePage ps p h.mem h'.mem :=
  ⟨hw.pages p hp, fun a ha => hw.bytes a (ha ▸ hp)⟩

theorem Vetted.congr (hv : Vetted e m p)
    (hbytes : ∀ a, a / e.opts.pagesize = p → m'.read e.opts.pagesize a = m.read e.opts.pagesize a) :
    Vetted e m' p := by
  obtain ⟨base, bytes, haccept, hat⟩ := hv
  refine ⟨base, bytes, haccept, fun a ha => ?_⟩
  rw [hbytes a ha]
  exact hat a ha

namespace PageMove

theorem refl (m : Memory) : PageMove e p m m := .inl (.refl m)

theorem trans (h : PageMove e p m m') (h' : PageMove e p m' m'') : PageMove e p m m'' := by
  rcases h' with hsame | hafter
  · rcases h with hsame' | hexec | ⟨hwrite, hvet⟩
    · exact .inl (hsame'.trans hsame)
    · exact .inr (.inl (hsame.prot_eq ▸ hexec))
    · exact .inr (.inr ⟨hsame.prot_eq ▸ hwrite, hvet.congr hsame.bytes⟩)
  · exact .inr hafter

theorem munmapMem (m : Memory) (start n : Nat) :
    PageMove e p m (m.munmap e.opts.pagesize start n) := by
  by_cases hin : InSpan e.opts.pagesize start n p
  · right
    left
    rw [Memory.prot_munmap, if_pos hin, Prot.exec_none]
  · left
    refine ⟨by simp [Memory.munmap, hin], fun a ha => Memory.read_munmap_of_not ?_⟩
    rwa [ha]

theorem mmap (h : Host) (hx : pr.exec = false) :
    PageMove e p h.mem (HostCalls.mmap e.opts.pagesize h start len pr src).2.mem := by
  by_cases hin : InSpan e.opts.pagesize start len p
  · rcases mmap_cases e.opts.pagesize h start len pr src with
      ⟨s, -, -, -, -, heq⟩ | ⟨-, n, -, heq⟩ | heq
    · right
      left
      rw [heq, mem_used, Memory.prot_mmapFixed, if_pos hin, hx]
    · rw [heq]
      exact munmapMem ..
    · rw [heq]
      exact refl _
  · exact .inl (samePage_of_within (within_mmap ..) hin)

theorem munmap (h : Host) :
    PageMove e p h.mem (HostCalls.munmap e.opts.pagesize h start len).2.mem := by
  rcases munmap_cases e.opts.pagesize h start len with ⟨-, n, -, heq⟩ | heq
  · rw [heq]
    exact munmapMem ..
  · rw [heq]
    exact refl _

theorem mprotectMem (m : Memory) {n : Nat} (hpr : pr.exec = true →
    pr.write = false ∧ (InSpan e.opts.pagesize start n p → Vetted e m p)) :
    PageMove e p m (m.mprotect e.opts.pagesize start n pr) := by
  by_cases hin : InSpan e.opts.pagesize start n p
  · right
    rcases Memory.prot_mprotect_or m pr hin with hprot | hprot
    · cases hx : pr.exec with
      | false => exact .inl (by rw [hprot, hx])
      | true =>
          obtain ⟨hwrite, hvet⟩ := hpr hx
          refine .inr ⟨by rw [hprot, hwrite], ?_⟩
          exact (hvet hin).congr fun a _ => Memory.read_mprotect ..
    · exact .inl (by rw [hprot, Prot.exec_none])
  · left
    exact ⟨Memory.pages_mprotect_of_not hin, fun a _ => Memory.read_mprotect ..⟩

/-- A host `mprotect` to a protection that is not executable, or to one that is not writable
over bytes that are accepted. -/
theorem mprotect (h : Host) (hpr : pr.exec = true → pr.write = false ∧
    (InSpan e.opts.pagesize start len p → start % e.opts.pagesize = 0 → Vetted e h.mem p)) :
    PageMove e p h.mem (HostCalls.mprotect e.opts.pagesize h start len pr).2.mem := by
  rcases mprotect_cases e.opts.pagesize h start len pr with
    ⟨-, hal, heq⟩ | ⟨hal, n, hn, heq⟩ | heq
  · rw [heq]
    exact mprotectMem _ fun hx => (hpr hx).imp_right fun hvet hin => hvet hin hal
  · rw [heq]
    exact mprotectMem _ fun hx => (hpr hx).imp_right fun hvet hin =>
      hvet (inSpan_mono le_rfl (by omega) hin) hal
  · rw [heq]
    exact refl _

theorem protectmem (h : Host) (hx : pr.exec = false) :
    PageMove e p h.mem (Box.protectmem e h start len pr).2.mem :=
  mprotect h fun hexec => absurd hexec (by simp [hx])

theorem mapmem (h : Host) (hx : has prot LFI_PROT_EXEC = false) :
    PageMove e p h.mem (Box.mapmem e h start len prot flags fd off).2.mem := by
  have hmap : PageMove e p h.mem (HostCalls.mmap e.opts.pagesize h start len
      (hostProt e.target prot) (hostSource e.opts.pagesize flags fd off)).2.mem := mmap h hx
  simp only [Box.mapmem]
  split_ifs
  · exact hmap
  · exact (hmap.trans (protectmem _ hx)).trans (munmap _)
  · exact hmap.trans (protectmem _ hx)
  · exact hmap

/-- The verifier followed by the last host call, on a range of whole pages. -/
theorem verifyThenProtect (h : Host) (hw : has prot LFI_PROT_WRITE = false)
    (hlen : e.opts.pagesize ∣ len) :
    PageMove e p h.mem (if !(HostCalls.lfivVerify e.opts.pagesize e h start len).1
      then (false, (HostCalls.lfivVerify e.opts.pagesize e h start len).2)
      else Box.protectmem e (HostCalls.lfivVerify e.opts.pagesize e h start len).2 start len
        (hostProt e.target prot)).2.mem := by
  rcases lfivVerify_cases e.opts.pagesize e h start len with ⟨hacc, heq⟩ | ⟨-, heq⟩
  · rw [heq]
    have hprotect := @mprotect e start len p (hostProt e.target prot) { h with verified :=
      (start, h.mem.readRange e.opts.pagesize start len) :: h.verified }
    apply hprotect
    intro _
    refine ⟨hw, fun hin hal => ?_⟩
    obtain ⟨base, bytes, -, hvet⟩ := ExecVerified.accepted_of_verify hal hlen hin hacc
    exact ⟨base, bytes, hvet⟩
  · rw [heq]
    exact refl _

theorem protectverify (h : Host) (hv : e.opts.noVerify = false) (hlen : e.opts.pagesize ∣ len) :
    PageMove e p h.mem (Box.protectverify e h start len prot false).2.mem := by
  simp only [Box.protectverify, ExecVerified.skipsVerifier_eq hv]
  cases hx : has prot LFI_PROT_EXEC with
  | false => exact protectmem h hx
  | true =>
      cases hw : has prot LFI_PROT_WRITE with
      | true => exact refl _
      | false => exact (protectmem h Prot.exec_readOnly).trans (verifyThenProtect _ hw hlen)

theorem mapverify (h : Host) (hv : e.opts.noVerify = false)
    (hlen : has prot LFI_PROT_EXEC = true → e.opts.pagesize ∣ len) :
    PageMove e p h.mem (Box.mapverify e h start len prot flags fd off false).2.mem := by
  simp only [Box.mapverify, ExecVerified.skipsVerifier_eq hv]
  cases hx : has prot LFI_PROT_EXEC with
  | false => exact mapmem h hx
  | true =>
      cases hw : has prot LFI_PROT_WRITE with
      | true => exact refl _
      | false =>
          have hread : has LFI_PROT_READ LFI_PROT_EXEC = false := by decide
          have hmap : PageMove e p h.mem
              (Box.mapmem e h start len LFI_PROT_READ flags fd off).2.mem := mapmem h hread
          simp only [Bool.not_true, Bool.false_eq_true, if_false, Bool.false_and]
          split
          · exact hmap
          · exact hmap.trans (verifyThenProtect _ hw (hlen hx))

theorem foldl_cbunmap (pieces : List Piece) (h : Host) :
    PageMove e p h.mem (pieces.foldl (cbunmap e) h).mem := by
  induction pieces generalizing h with
  | nil => exact refl _
  | cons piece pieces ih =>
      refine PageMove.trans ?_ (ih _)
      have hmap : PageMove e p h.mem (HostCalls.mmap e.opts.pagesize h piece.start piece.len
          Prot.none (some .anon)).2.mem := mmap h rfl
      simp only [cbunmap]
      split_ifs
      · exact hmap
      · exact hmap.trans (protectmem _ Prot.exec_none)

end PageMove

open ExecVerified

/-- What an operation of the sandbox may do to a page. -/
theorem pageMove_apply (hv : e.opts.noVerify = false) (s : ExecVerified.State) {op : Op}
    (hwhole : WholePages e op) (hstore : ∀ a b, op ≠ .store a b) :
    PageMove e p s.host.mem (apply e s op).host.mem := by
  cases op with
  | mapany size prot flags fd off =>
      simp only [apply, lfiBoxMapany, boxMapanyLocked]
      split
      · exact .refl _
      · rename_i addr mm _
        have hverify : PageMove e p s.host.mem
            (mapverify e s.host addr size prot flags fd off false).2.mem := .mapverify _ hv hwhole
        split_ifs
        · exact hverify.trans (.foldl_cbunmap ..)
        · exact hverify
  | mapat addr size prot flags fd off =>
      simp only [apply, lfiBoxMapat, boxMapatLocked]
      split_ifs
      · exact .refl _
      · split
        · exact .refl _
        · rename_i a mm pieces _
          have hpieces : PageMove e p s.host.mem (pieces.foldl (cbunmap e) s.host).mem :=
            .foldl_cbunmap ..
          have hverify : PageMove e p (pieces.foldl (cbunmap e) s.host).mem
              (mapverify e (pieces.foldl (cbunmap e) s.host) a size prot flags fd off false).2.mem :=
            .mapverify _ hv hwhole
          split_ifs
          · exact (hpieces.trans hverify).trans (.foldl_cbunmap ..)
          · exact hpieces.trans hverify
  | mprotect addr size prot =>
      simp only [apply, lfiBoxMprotect, boxMprotectLocked]
      split
      · exact .refl _
      · rename_i hargs
        have hsize : e.opts.pagesize ∣ size := by
          simp only [not_or, not_not] at hargs
          exact Nat.dvd_of_mod_eq_zero hargs.2.2
        have hprot : PageMove e p s.host.mem (protectverify e s.host addr size prot false).2.mem :=
          .protectverify _ hv hsize
        split
        · exact .refl _
        · split
          · exact hprot
          · split <;> exact hprot
  | munmap addr size =>
      simp only [apply, lfiBoxMunmap, boxMunmapLocked]
      have hmap : PageMove e p s.host.mem (mmap e.opts.pagesize s.host addr
          ((size + e.opts.pagesize - 1) / e.opts.pagesize * e.opts.pagesize) Prot.none
            (some .anon)).2.mem := .mmap _ rfl
      split
      · exact .refl _
      · split
        · exact hmap
        · split <;> exact hmap
  | store a b => exact absurd rfl (hstore a b)

/-- The file that the operation maps. -/
def fileOf : Op → Option Int
  | .mapany _ _ flags fd _ => mappedFd flags fd
  | .mapat _ _ _ flags fd _ => mappedFd flags fd
  | .mprotect _ _ _ => none
  | .munmap _ _ => none
  | .store _ _ => none

/-- An operation of the sandbox shows nothing new but a file that it maps, and gives no way to
write one. -/
theorem cellsFrom_apply (s : ExecVerified.State) {op : Op} (hpriv : Private op) :
    CellsFrom e.opts.pagesize (cellsOf (fileOf op)) noCells s.host.mem
      (apply e s op).host.mem := by
  cases op with
  | mapany size prot flags fd off => exact .mapany _ _ fun _ _ _ => allows_private hpriv
  | mapat addr size prot flags fd off => exact .mapat _ fun _ _ _ _ => allows_private hpriv
  | mprotect addr size prot => exact .boxMprotect _
  | munmap addr size => exact .boxMunmap _
  | store a b => exact .store ..

theorem files_apply (s : ExecVerified.State) {op : Op} (hstore : ∀ a b, op ≠ .store a b) :
    (apply e s op).host.mem.files = s.host.mem.files := by
  cases op with
  | mapany size prot flags fd off =>
      simp only [apply, lfiBoxMapany, boxMapanyLocked]
      split
      · rfl
      · split_ifs
        · exact (files_foldl_cbunmap ..).trans (files_mapverify ..)
        · exact files_mapverify ..
  | mapat addr size prot flags fd off =>
      simp only [apply, lfiBoxMapat, boxMapatLocked]
      split_ifs
      · rfl
      · split
        · rfl
        · split_ifs
          · exact ((files_foldl_cbunmap ..).trans (files_mapverify ..)).trans
              (files_foldl_cbunmap ..)
          · exact (files_mapverify ..).trans (files_foldl_cbunmap ..)
  | mprotect addr size prot =>
      simp only [apply, lfiBoxMprotect, boxMprotectLocked]
      have hsame := (sameBytes_protectverify (e := e) s.host addr size prot false).files
      split
      · rfl
      · split
        · rfl
        · split
          · exact hsame
          · split <;> exact hsame
  | munmap addr size =>
      simp only [apply, lfiBoxMunmap, boxMunmapLocked]
      split
      · rfl
      · split
        · exact files_mmap ..
        · split <;> exact files_mmap ..
  | store a b => exact absurd rfl (hstore a b)

/-! Pages that a call does not name. -/

/-- The arguments of the operation name the page. -/
def Names (ps : Nat) : Op → Nat → Prop
  | .mapany _ _ _ _ _, _ => False
  | .mapat addr size _ _ _ _, p => InSpan ps addr size p
  | .mprotect addr size _, p => InSpan ps addr size p
  | .munmap addr size, p => InSpan ps addr size p
  | .store _ _, _ => False

variable {r : Region}

/-- A page that is taken is not one that a mapping at an address of the mapper's choice gets. -/
theorem spares_mapany (hw : Works e r box) (h : Host) (htaken : box.mm.table p ≠ none) :
    let u := boxMapanyLocked e box h size prot flags fd off false
    SamePage e.opts.pagesize p h.mem u.2.2.mem ∧ u.2.1.mm.table p = box.mm.table p := by
  intro u
  have hout : ∀ addr, r.Accepts addr size →
      box.mm.table.Free (addr / r.pagesize) (r.pages size) →
        ¬InSpan e.opts.pagesize addr size p := by
    intro addr hacc hfree hin
    have hrange := (hw.region.inSpan_iff (hw.region.pagesize ▸ hacc.1)).mp hin
    exact htaken (hfree p hrange.1 hrange.2)
  rcases mapany_cases hw h size prot flags fd off false with
    ⟨addr, -, hacc, hfree, hset, -, -⟩ | ⟨-, -, -, htable, ⟨-, hhost⟩ | ⟨addr, hsome, hacc, -, hhost⟩⟩
  · have hnot := hout addr hacc hfree
    refine ⟨samePage_of_within hset.within hnot, ?_⟩
    exact (hset.only hw hacc).table p hnot
  · rw [show u.2.2 = _ from hhost, show u.2.1.mm.table = _ from htable]
    exact ⟨.refl _, rfl⟩
  · rw [show u.2.2 = _ from hhost, show u.2.1.mm.table = _ from htable]
    refine ⟨samePage_of_within ((within_mapverify ..).trans ((within_cbunmap ..).mono fun q hq =>
      (hw.region.inSpan_pages hacc).mp hq)) (hout addr hacc ?_), rfl⟩
    rcases hw.mapper.mapAny_cases hw.region.fits 0 size ⟨prot, flags, fd, off⟩ with
      ⟨start, mm, heq, -, -, hfree, -⟩ | ⟨mm, heq, -⟩
    · rw [heq] at hsome
      obtain rfl := Option.some.inj hsome
      rwa [Nat.mul_div_cancel _ r.pagesize_pos]
    · rw [heq] at hsome
      cases hsome

/-- A page that is taken, and not named, stays. -/
theorem spares_apply {s : ExecVerified.State} (hw : Works e r s.box) {op : Op}
    (htaken : s.box.mm.table p ≠ none) (hnot : ¬Names e.opts.pagesize op p)
    (hstore : ∀ a b, op ≠ .store a b) :
    SamePage e.opts.pagesize p s.host.mem (apply e s op).host.mem ∧
      (apply e s op).box.mm.table p = s.box.mm.table p := by
  have honly : ∀ {addr size box' h'}, Only e r addr size s.box s.host box' h' →
      ¬InSpan e.opts.pagesize addr size p →
        SamePage e.opts.pagesize p s.host.mem h'.mem ∧ box'.mm.table p = s.box.mm.table p :=
    fun ho hin => ⟨samePage_of_within ho.within hin, ho.table p hin⟩
  cases op with
  | mapany size prot flags fd off => exact spares_mapany hw s.host htaken
  | mapat addr size prot flags fd off => exact honly (only_mapat hw ..) hnot
  | mprotect addr size prot => exact honly (boxMprotect_cases hw s.host addr size prot false).1 hnot
  | munmap addr size => exact honly (boxMunmap_cases hw s.host addr size).1 hnot
  | store a b => exact absurd rfl (hstore a b)

end

end LfiRuntime.Box
