import LfiRuntime.Lib.Runs
import LfiRuntime.Box.Box

/-!
Executable implies verified: runs of the four memory operations of a box,
interleaved with stores of the sandbox.
-/

namespace LfiRuntime.ExecVerified

open LfiRuntime.PagedMemory
open LfiRuntime.Config
open LfiRuntime.HostCalls
open LfiRuntime.Mmap
open LfiRuntime.Box
open LfiRuntime.Runs

structure State where
  box : LFIBox
  host : Host

inductive Op
  | mapany (size : Nat) (prot flags : BitVec 32) (fd off : Int)
  | mapat (addr size : Nat) (prot flags : BitVec 32) (fd off : Int)
  | mprotect (addr size : Nat) (prot : BitVec 32)
  | munmap (addr size : Nat)
  | store (a : Nat) (b : UInt8)

/-- The state an operation leaves. -/
def apply (e : Engine) (s : State) : Op → State
  | .mapany size prot flags fd off =>
      let r := lfiBoxMapany e s.box s.host size prot flags fd off
      ⟨r.2.1, r.2.2⟩
  | .mapat addr size prot flags fd off =>
      let r := lfiBoxMapat e s.box s.host addr size prot flags fd off
      ⟨r.2.1, r.2.2⟩
  | .mprotect addr size prot =>
      let r := lfiBoxMprotect e s.box s.host addr size prot
      ⟨r.2.1, r.2.2⟩
  | .munmap addr size =>
      let r := lfiBoxMunmap e s.box s.host addr size
      ⟨r.2.1, r.2.2⟩
  | .store a b => ⟨s.box, HostCalls.store e.opts.pagesize s.host a b⟩

/-- The operations the property is about: no shared backing. -/
def Private : Op → Prop
  | .mapany _ _ flags _ _ => has flags LFI_MAP_SHARED = false
  | .mapat _ _ _ flags _ _ => has flags LFI_MAP_SHARED = false
  | _ => True

/-- A mapping that asks for execution is a whole number of pages. -/
def WholePages (e : Engine) : Op → Prop
  | .mapany size prot _ _ _ => has prot LFI_PROT_EXEC = true → e.opts.pagesize ∣ size
  | .mapat _ size prot _ _ _ => has prot LFI_PROT_EXEC = true → e.opts.pagesize ∣ size
  | _ => True

def step (e : Engine) (s : State) (op : Op) (t : State) : Prop :=
  Private op ∧ t = apply e s op

/-- Page `p` lies in a range that `lfiv_verify` accepted with the bytes the
page now has. -/
def Accepted (e : Engine) (h : Host) (p : Nat) : Prop :=
  ∃ base bytes, (base, bytes) ∈ h.verified ∧ e.lfivVerify base bytes = true ∧
    ∀ a, a / e.opts.pagesize = p →
      base ≤ a ∧ bytes[a - base]? = some (h.mem.read e.opts.pagesize a)

/-- What is executable is not writable and was accepted. -/
def OnlyVerified (e : Engine) (h : Host) (p : Nat) : Prop :=
  (h.mem.prot p).exec = true → (h.mem.prot p).write = false ∧ Accepted e h p

/-- A page that runs of these operations start from: not executable, in memory
that maps no file shared. -/
def Fresh (h : Host) (p : Nat) : Prop :=
  (h.mem.prot p).exec = false ∧ ∀ q, h.mem.backing q = .priv

/-- What every operation keeps of a page. -/
structure Inv (e : Engine) (p : Nat) (h : Host) : Prop where
  priv : ∀ q, h.mem.backing q = .priv
  onlyVerified : OnlyVerified e h p

variable {e : Engine} {p : Nat} {h : Host} {start size : Nat}

namespace Inv

theorem of_fresh (hp : Fresh h p) : Inv e p h :=
  ⟨hp.2, fun hx => absurd hx (by simp [hp.1])⟩

/-- A host state in which the page is executable only as before, with the
bytes it had. -/
theorem of_same {h' : Host} (hp : Inv e p h) (hprot : h'.mem.prot p = h.mem.prot p)
    (hback : ∀ q, h'.mem.backing q = .priv) (hlog : h.verified ⊆ h'.verified)
    (hread : (h.mem.prot p).exec = true → ∀ a, a / e.opts.pagesize = p →
      h'.mem.read e.opts.pagesize a = h.mem.read e.opts.pagesize a) : Inv e p h' := by
  refine ⟨hback, fun hx => ?_⟩
  rw [hprot] at hx ⊢
  obtain ⟨hw, base, bytes, hmem, hacc, hbytes⟩ := hp.onlyVerified hx
  refine ⟨hw, base, bytes, hlog hmem, hacc, fun a ha => ?_⟩
  rw [hread hx a ha]
  exact hbytes a ha

theorem of_not_exec {h' : Host} (hback : ∀ q, h'.mem.backing q = .priv)
    (hx : (h'.mem.prot p).exec = false) : Inv e p h' :=
  ⟨hback, fun hexec => absurd hexec (by simp [hx])⟩

theorem used_self (hp : Inv e p h) : Inv e p (used h h.mem) :=
  hp.of_same rfl hp.priv (List.Subset.refl _) fun _ _ _ => rfl

/-- Pages that are unmapped, by a call that fails too. -/
theorem unmap (hp : Inv e p h) (start len : Nat) :
    Inv e p (used h (h.mem.munmap e.opts.pagesize start len)) := by
  have hback : ∀ q, (h.mem.munmap e.opts.pagesize start len).backing q = .priv :=
    fun q => Memory.backing_munmap_priv (hp.priv q)
  by_cases hin : InSpan e.opts.pagesize start len p
  · refine of_not_exec hback ?_
    rw [mem_used, Memory.prot_munmap, if_pos hin, Prot.exec_none]
  · refine hp.of_same ?_ hback (List.Subset.refl _) fun _ a ha => ?_
    · rw [mem_used, Memory.prot_munmap, if_neg hin]
    · exact Memory.read_munmap_of_not (ha ▸ hin)

theorem mmap (hp : Inv e p h) {pr : Prot} {src : Option Source} (hx : pr.exec = false)
    (hsrc : ∀ f off, src ≠ some (.sharedFile f off)) :
    Inv e p (HostCalls.mmap e.opts.pagesize h start size pr src).2 := by
  rcases mmap_cases e.opts.pagesize h start size pr src with
    ⟨s, rfl, -, -, -, heq⟩ | ⟨-, n, -, heq⟩ | heq
  · rw [heq]
    have hback : ∀ q, (h.mem.mmapFixed e.opts.pagesize start size pr s).backing q = .priv := by
      intro q
      by_cases hin : InSpan e.opts.pagesize start size q
      · exact Memory.backing_mmapFixed_of_private hin
          fun f off hs => hsrc f off (congrArg some hs)
      · rw [Memory.backing_mmapFixed_of_not hin, hp.priv]
    by_cases hin : InSpan e.opts.pagesize start size p
    · refine of_not_exec hback ?_
      rw [mem_used, Memory.prot_mmapFixed, if_pos hin, hx]
    · refine hp.of_same ?_ hback (List.Subset.refl _) fun _ a ha => ?_
      · rw [mem_used, Memory.prot_mmapFixed, if_neg hin]
      · exact Memory.read_mmapFixed_of_not (ha ▸ hin)
  · rw [heq]
    exact hp.unmap start n
  · rw [heq]
    exact hp.used_self

theorem munmap (hp : Inv e p h) :
    Inv e p (HostCalls.munmap e.opts.pagesize h start size).2 := by
  rcases munmap_cases e.opts.pagesize h start size with ⟨-, n, -, heq⟩ | heq
  · rw [heq]
    exact hp.unmap start n
  · rw [heq]
    exact hp.used_self

/-- A host `mprotect` to a protection that is not executable, or to one that is
not writable over bytes just accepted. -/
theorem mprotect (hp : Inv e p h) {pr : Prot}
    (hpr : pr.exec = true → pr.write = false ∧
      (InSpan e.opts.pagesize start size p → start % e.opts.pagesize = 0 → Accepted e h p)) :
    Inv e p (HostCalls.mprotect e.opts.pagesize h start size pr).2 := by
  -- a call that fails may have changed the first bytes of the range
  have hmem : ∀ n ≤ size, start % e.opts.pagesize = 0 →
      Inv e p (used h (h.mem.mprotect e.opts.pagesize start n pr)) := by
    intro n hn hal
    have hback : ∀ q, (h.mem.mprotect e.opts.pagesize start n pr).backing q = .priv := by
      intro q
      rw [Memory.backing_mprotect, hp.priv]
    by_cases hin : InSpan e.opts.pagesize start n p
    · refine ⟨hback, fun hx => ?_⟩
      rcases Memory.prot_mprotect_or h.mem pr hin with hprot | hprot
      · rw [mem_used, hprot] at hx ⊢
        obtain ⟨hw, hacc⟩ := hpr hx
        obtain ⟨base, bytes, hmem, hv, hbytes⟩ := hacc (inSpan_mono le_rfl (by omega) hin) hal
        refine ⟨hw, base, bytes, hmem, hv, fun a ha => ?_⟩
        rw [mem_used, Memory.read_mprotect]
        exact hbytes a ha
      · rw [mem_used, hprot] at hx
        exact absurd hx (by decide)
    · exact hp.of_same (Memory.prot_mprotect_of_not hin) hback (List.Subset.refl _)
        fun _ a _ => Memory.read_mprotect ..
  rcases mprotect_cases e.opts.pagesize h start size pr with
    ⟨-, hal, heq⟩ | ⟨hal, n, hn, heq⟩ | heq
  · rw [heq]
    exact hmem size le_rfl hal
  · rw [heq]
    exact hmem n hn hal
  · rw [heq]
    exact hp.used_self

theorem store (hp : Inv e p h) (a : Nat) (b : UInt8) :
    Inv e p (HostCalls.store e.opts.pagesize h a b) := by
  refine hp.of_same ?_ ?_ (List.Subset.refl _) fun hx x hxp => ?_
  · exact congrFun (Memory.prot_store a b) p
  · exact fun q => (congrFun (Memory.backing_store a b) q).trans (hp.priv q)
  · subst hxp
    exact Memory.read_store_of_priv (hp.priv _) (hp.onlyVerified hx).1

end Inv

theorem accepted_of_verify (hstart : start % e.opts.pagesize = 0)
    (hsize : e.opts.pagesize ∣ size) (hin : InSpan e.opts.pagesize start size p)
    (hv : e.lfivVerify start (h.mem.readRange e.opts.pagesize start size) = true) :
    Accepted e { h with verified :=
      (start, h.mem.readRange e.opts.pagesize start size) :: h.verified } p := by
  refine ⟨start, _, List.mem_cons_self, hv, fun a ha => ?_⟩
  subst ha
  obtain ⟨hlo, hhi⟩ := mem_of_inSpan (Nat.dvd_of_mod_eq_zero hstart) hsize hin
  refine ⟨hlo, ?_⟩
  rw [Memory.getElem?_readRange (by omega), Nat.add_sub_cancel' hlo]

theorem hostSource_ne_shared {flags : BitVec 32} {fd off : Int}
    (hs : has flags LFI_MAP_SHARED = false) (f : Int) (o : Nat) :
    hostSource e.opts.pagesize flags fd off ≠ some (.sharedFile f o) := by
  simp only [hostSource, hs, Bool.false_eq_true, if_false]
  split_ifs <;> simp

theorem skipsVerifier_eq (hv : e.opts.noVerify = false) (prot : BitVec 32) :
    skipsVerifier e prot (false || e.opts.noVerify) = !has prot LFI_PROT_EXEC := by
  simp [skipsVerifier, hv]

namespace Inv

variable {prot flags : BitVec 32} {fd off : Int}

theorem protectmem (hp : Inv e p h) {pr : Prot} (hx : pr.exec = false) :
    Inv e p (Box.protectmem e h start size pr).2 :=
  hp.mprotect fun hexec => absurd hexec (by simp [hx])

theorem mapmem (hp : Inv e p h) (hx : has prot LFI_PROT_EXEC = false)
    (hs : has flags LFI_MAP_SHARED = false) :
    Inv e p (Box.mapmem e h start size prot flags fd off).2 := by
  have hmap : Inv e p (HostCalls.mmap e.opts.pagesize h start size
      (hostProt e.target prot) (hostSource e.opts.pagesize flags fd off)).2 :=
    hp.mmap hx (hostSource_ne_shared hs)
  simp only [Box.mapmem]
  split_ifs
  · exact hmap
  · exact (hmap.protectmem hx).munmap
  · exact hmap.protectmem hx
  · exact hmap

/-- The verifier followed by the last host call, on a range of whole pages. -/
theorem verifyThenProtect (hp : Inv e p h) (hw : has prot LFI_PROT_WRITE = false)
    (hsize : e.opts.pagesize ∣ size) :
    Inv e p (if !(HostCalls.lfivVerify e.opts.pagesize e h start size).1
      then (false, (HostCalls.lfivVerify e.opts.pagesize e h start size).2)
      else Box.protectmem e (HostCalls.lfivVerify e.opts.pagesize e h start size).2 start size
        (hostProt e.target prot)).2 := by
  rcases lfivVerify_cases e.opts.pagesize e h start size with ⟨hacc, heq⟩ | ⟨-, heq⟩
  · rw [heq]
    have hlog : Inv e p { h with verified :=
        (start, h.mem.readRange e.opts.pagesize start size) :: h.verified } :=
      hp.of_same rfl hp.priv (List.subset_cons_self _ _) fun _ _ _ => rfl
    exact hlog.mprotect fun _ => ⟨hw, fun hin hal => accepted_of_verify hal hsize hin hacc⟩
  · rw [heq]
    exact hp

theorem protectverify (hp : Inv e p h) (hv : e.opts.noVerify = false)
    (hsize : e.opts.pagesize ∣ size) :
    Inv e p (Box.protectverify e h start size prot false).2 := by
  simp only [Box.protectverify, skipsVerifier_eq hv]
  cases hx : has prot LFI_PROT_EXEC with
  | false => exact hp.protectmem hx
  | true =>
      cases hw : has prot LFI_PROT_WRITE with
      | true => exact hp
      | false => exact (hp.protectmem Prot.exec_readOnly).verifyThenProtect hw hsize

theorem mapverify (hp : Inv e p h) (hv : e.opts.noVerify = false)
    (hs : has flags LFI_MAP_SHARED = false)
    (hsize : has prot LFI_PROT_EXEC = true → e.opts.pagesize ∣ size) :
    Inv e p (Box.mapverify e h start size prot flags fd off false).2 := by
  simp only [Box.mapverify, skipsVerifier_eq hv]
  cases hx : has prot LFI_PROT_EXEC with
  | false => exact hp.mapmem hx hs
  | true =>
      cases hw : has prot LFI_PROT_WRITE with
      | true => exact hp
      | false =>
          have hread : has LFI_PROT_READ LFI_PROT_EXEC = false := by decide
          have hmap : Inv e p (Box.mapmem e h start size LFI_PROT_READ flags fd off).2 :=
            hp.mapmem hread hs
          simp only [Bool.not_true, Bool.false_eq_true, if_false, Bool.false_and]
          split
          · exact hmap
          · exact hmap.verifyThenProtect hw (hsize hx)

theorem cbunmap (hp : Inv e p h) (piece : Piece) : Inv e p (Box.cbunmap e h piece) := by
  have hmap : Inv e p (HostCalls.mmap e.opts.pagesize h piece.start piece.len Prot.none
      (some .anon)).2 :=
    hp.mmap rfl (by simp)
  simp only [Box.cbunmap]
  split_ifs
  · exact hmap
  · exact hmap.protectmem Prot.exec_none

theorem foldl_cbunmap (pieces : List Piece) (hp : Inv e p h) :
    Inv e p (pieces.foldl (Box.cbunmap e) h) := by
  induction pieces generalizing h with
  | nil => exact hp
  | cons piece pieces ih => exact ih (hp.cbunmap piece)

end Inv

/-- One operation keeps the invariant of every page. -/
theorem inv_apply (hv : e.opts.noVerify = false) {s : State} {op : Op}
    (hs : Inv e p s.host) (hpriv : Private op) (hwhole : WholePages e op) :
    Inv e p (apply e s op).host := by
  cases op with
  | mapany size prot flags fd off =>
      simp only [apply, lfiBoxMapany, boxMapanyLocked]
      split
      · exact hs
      · split_ifs
        · exact (hs.mapverify hv hpriv hwhole).foldl_cbunmap _
        · exact hs.mapverify hv hpriv hwhole
  | mapat addr size prot flags fd off =>
      simp only [apply, lfiBoxMapat, boxMapatLocked]
      split_ifs
      · exact hs
      · split
        · exact hs
        · rename_i pieces _
          have hpieces := hs.foldl_cbunmap pieces
          split_ifs
          · exact (hpieces.mapverify hv hpriv hwhole).foldl_cbunmap _
          · exact hpieces.mapverify hv hpriv hwhole
  | mprotect addr size prot =>
      simp only [apply, lfiBoxMprotect, boxMprotectLocked]
      split
      · exact hs
      · rename_i hargs
        have hsize : e.opts.pagesize ∣ size := by
          simp only [not_or, not_not] at hargs
          exact Nat.dvd_of_mod_eq_zero hargs.2.2
        have hprot : Inv e p (Box.protectverify e s.host addr size prot false).2 :=
          hs.protectverify hv hsize
        split
        · exact hs
        · split
          · exact hprot
          · split <;> exact hprot
  | munmap addr size =>
      simp only [apply, lfiBoxMunmap, boxMunmapLocked]
      have hmap : Inv e p (HostCalls.mmap e.opts.pagesize s.host addr
          ((size + e.opts.pagesize - 1) / e.opts.pagesize * e.opts.pagesize) Prot.none
          (some .anon)).2 :=
        hs.mmap rfl (by simp)
      split
      · exact hs
      · split
        · exact hmap
        · split <;> exact hmap
  | store a b => exact hs.store a b

/-- A box with nothing mapped, next to a file. -/
def fileState (file : Nat → UInt8) : State where
  box := emptyBox
  host :=
    { mem :=
        { pages := fun _ => some ⟨Prot.none, .priv⟩
          priv := fun _ => 0
          files := fun _ => file }
      outcomes := []
      verified := [] }

theorem fresh_fileState (file : Nat → UInt8) (p : Nat) : Fresh (fileState file).host p :=
  ⟨rfl, fun _ => rfl⟩

/-- The file has one `nop` and then `hlt`. -/
def hltState : State := fileState fun off => if off = 0 then 0x90 else 0xf4

/-- One byte of the file is asked for and verified, and the page it lies on
becomes executable. -/
theorem unverified_after_short_mapany :
    ∃ t, Reaches (step nopEngine) anyStep hltState t ∧
      (t.host.mem.prot 0x100001).exec = true ∧
      t.host.mem.read 4096 0x100001001 = 0xf4 ∧
      (∀ r ∈ t.host.verified, ¬(r.1 ≤ 0x100001001 ∧ 0x100001001 < r.1 + r.2.length)) ∧
      ¬OnlyVerified nopEngine t.host 0x100001 := by
  let op := Op.mapany 1 (LFI_PROT_READ ||| LFI_PROT_EXEC) LFI_MAP_PRIVATE 3 0
  have hlog : (apply nopEngine hltState op).host.verified = [(0x100001000, [0x90])] := by
    decide
  have hexec : ((apply nopEngine hltState op).host.mem.prot 0x100001).exec = true := by
    decide
  refine ⟨apply nopEngine hltState op, ?_, hexec, by decide, ?_, fun hverified => ?_⟩
  · have hprivate : has LFI_MAP_PRIVATE LFI_MAP_SHARED = false := by decide
    exact (Reaches.refl _).tail (l := op) trivial ⟨hprivate, rfl⟩
  · rw [hlog]
    decide
  · obtain ⟨-, base, bytes, hmem, -, hbytes⟩ := hverified hexec
    rw [hlog, List.mem_singleton, Prod.mk.injEq] at hmem
    obtain ⟨rfl, rfl⟩ := hmem
    exact absurd (hbytes 0x100001001 (by decide)).2 (by simp)

/-- In a run whose executable mappings are whole pages, every page that is
executable was accepted by the verifier as it is now, and is not writable. -/
theorem onlyVerified_of_reaches (hv : e.opts.noVerify = false) {s t : State}
    (hfresh : Fresh s.host p)
    (hrun : Reaches (step e) (fun _ op => WholePages e op) s t) :
    OnlyVerified e t.host p := by
  have hinv : Inv e p t.host := by
    apply hrun.invariant
    · exact .of_fresh hfresh
    · rintro s op _ hs hwhole ⟨hpriv, rfl⟩
      exact inv_apply hv hs hpriv hwhole
  exact hinv.onlyVerified

/-- A file of `nop`s, mapped as a whole page. -/
theorem onlyVerified_after_page_mapany :
    OnlyVerified nopEngine (apply nopEngine (fileState fun _ => 0x90)
      (.mapany 4096 (LFI_PROT_READ ||| LFI_PROT_EXEC) LFI_MAP_PRIVATE 3 0)).host 0x100001 := by
  have hprivate : has LFI_MAP_PRIVATE LFI_MAP_SHARED = false := by decide
  let op := Op.mapany 4096 (LFI_PROT_READ ||| LFI_PROT_EXEC) LFI_MAP_PRIVATE 3 0
  refine onlyVerified_of_reaches rfl (fresh_fileState _ _)
    ((Reaches.refl _).tail (l := op) ?_ ⟨hprivate, rfl⟩)
  exact fun _ => ⟨1, rfl⟩

end LfiRuntime.ExecVerified
