import LfiRuntime.Lib.Runs
import LfiRuntime.Box.Box

/-!
`lfi_box_mprotect` as its separate host calls, with stores by other threads of
the sandbox in between. The box lock keeps every other operation out.
-/

namespace LfiRuntime.MprotectRace

open LfiRuntime.PagedMemory
open LfiRuntime.Config
open LfiRuntime.HostCalls
open LfiRuntime.Mmap
open LfiRuntime.Box
open LfiRuntime.Runs

inductive Pc
  | entry
  | protectRead
  | verify
  | protectFinal
  | record
  | done (result : Int)
deriving DecidableEq, Repr

structure State where
  box : LFIBox
  host : Host
  pc : Pc
  /-- The bytes of the range when it got the requested protection. -/
  committed : Option (List UInt8)

inductive Label
  | next
  | store (a : Nat) (b : UInt8)

section

variable (e : Engine) (addr size : Nat) (prot : BitVec 32)

/-- The tests before the first host call. -/
def argsValid (box : LFIBox) : Bool :=
  !(size == 0 || addr % e.opts.pagesize != 0 || size % e.opts.pagesize != 0) &&
    lfiBoxBufvalid box addr size

/-- One step of the call. -/
def next (s : State) : State :=
  match s.pc with
  | .entry =>
      if !argsValid e addr size s.box then { s with pc := .done (-1) }
      else if skipsVerifier e prot e.opts.noVerify then { s with pc := .protectFinal }
      else if has prot LFI_PROT_WRITE && has prot LFI_PROT_EXEC then
        { s with pc := .done (-1) }
      else { s with pc := .protectRead }
  | .protectRead =>
      { s with host := (protectmem e s.host addr size Prot.readOnly).2, pc := .verify }
  | .verify =>
      let v := HostCalls.lfivVerify e.opts.pagesize e s.host addr size
      { s with host := v.2, pc := if v.1 then .protectFinal else .done (-1) }
  | .protectFinal =>
      let r := protectmem e s.host addr size (hostProt e.target prot)
      if r.1 then
        { s with
          host := r.2, pc := .record
          committed := some (r.2.mem.readRange e.opts.pagesize addr size) }
      else { s with host := r.2, pc := .done (-1) }
  | .record =>
      let r := s.box.mm.protect addr size prot
      { s with
        box := { s.box with mm := r.2.1 }
        pc := .done (match r.1 with | .kOk => 0 | .kInval => 1 | .kNoMem => 2) }
  | .done _ => s

def step (s : State) (l : Label) (t : State) : Prop :=
  match l with
  | .next => t = next e addr size prot s
  | .store a b => t = { s with host := HostCalls.store e.opts.pagesize s.host a b }

def start (box : LFIBox) (h : Host) : State := ⟨box, h, .entry, none⟩

/-- Where the call has returned 0, what became executable is what the verifier
accepted last. -/
def Unraced (s : State) : Prop :=
  s.pc = .done 0 → ∃ bytes, s.host.verified.head? = some (addr, bytes) ∧
    s.committed = some bytes

/-- No interleaving of the call with stores ends in a raced state. -/
def Safe (box : LFIBox) (h : Host) : Prop :=
  ∀ s, Reaches (step e addr size prot) anyStep (start box h) s → Unraced addr s

/-- A thread can change the range after the host call that makes it read-only,
in memory `m`: it writes to a page that the call did not reach, of the range or
one that shares with the range a page of a file. -/
def Window (h : Host) (m : Memory) : Prop :=
  ∃ a x, addr ≤ x ∧ x < addr + size ∧
    (x = a ∨ m.cell e.opts.pagesize x = m.target e.opts.pagesize a) ∧
    (h.mem.prot (a / e.opts.pagesize)).write = true ∧
    ¬InSpan e.opts.pagesize addr ((HostCalls.next h).extent e.opts.pagesize size)
      (a / e.opts.pagesize)

/-- Stores can give the range contents that the verifier accepts, and leave a
window open. -/
def Open (h : Host) : Prop :=
  ∃ stores, e.lfivVerify addr
      ((h.mem.storeAll e.opts.pagesize stores).readRange e.opts.pagesize addr size) = true ∧
    Window e addr size h (h.mem.storeAll e.opts.pagesize stores)

/-- The calls that can be raced: there is a window, and nothing else makes the
call fail. -/
structure Racy (box : LFIBox) (h : Host) : Prop where
  args : argsValid e addr size box = true
  notWx : has prot LFI_PROT_WRITE = false
  opened : Open e addr size h
  final : (h.outcomes.tail.headD .ok).isOk = true
  recorded : (box.mm.protect addr size prot).1 = .kOk

end

section

variable {e : Engine} {addr size : Nat} {prot : BitVec 32} {box : LFIBox} {h : Host}

theorem skipsVerifier_eq_false (hx : has prot LFI_PROT_EXEC = true) :
    skipsVerifier e prot false = false := by
  simp [skipsVerifier, hx]

theorem aligned_of_argsValid (hargs : argsValid e addr size box = true) :
    addr % e.opts.pagesize = 0 := by
  simp only [argsValid, Bool.and_eq_true, Bool.not_eq_true', Bool.or_eq_false_iff,
    bne_eq_false_iff_eq] at hargs
  exact hargs.1.1.2

theorem protectmem_eq (hal : addr % e.opts.pagesize = 0) (h : Host) (pr : Prot) :
    protectmem e h addr size pr = ((HostCalls.next h).isOk, used h
      (h.mem.mprotect e.opts.pagesize addr
        ((HostCalls.next h).extent e.opts.pagesize size) pr)) :=
  mprotect_eq_next hal size pr

theorem pages_protectmem_congr {g : Host} (hal : addr % e.opts.pagesize = 0)
    (hp : g.mem.pages = h.mem.pages) (ho : g.outcomes = h.outcomes) (pr : Prot) :
    (protectmem e g addr size pr).2.mem.pages =
      (protectmem e h addr size pr).2.mem.pages := by
  have hnext : HostCalls.next g = HostCalls.next h := by rw [HostCalls.next, ho, HostCalls.next]
  rw [protectmem_eq hal, protectmem_eq hal, hnext]
  simp only [mem_used, Memory.mprotect, hp]

theorem sameBytes_protectmem (hal : addr % e.opts.pagesize = 0) (pr : Prot) :
    Memory.SameBytes (protectmem e h addr size pr).2.mem h.mem := by
  rw [protectmem_eq hal]
  exact .mprotect ..

theorem outcomes_protectmem (hal : addr % e.opts.pagesize = 0) (pr : Prot) :
    (protectmem e h addr size pr).2.outcomes = h.outcomes.tail := by
  rw [protectmem_eq hal, outcomes_used]

theorem verified_protectmem (hal : addr % e.opts.pagesize = 0) (pr : Prot) :
    (protectmem e h addr size pr).2.verified = h.verified := by
  rw [protectmem_eq hal, verified_used]

/-- The pages that stay writable after the first host call. -/
theorem write_protectmem_readOnly (hal : addr % e.opts.pagesize = 0) (p : Nat) :
    ((protectmem e h addr size Prot.readOnly).2.mem.prot p).write = true ↔
      (h.mem.prot p).write = true ∧
        ¬InSpan e.opts.pagesize addr ((HostCalls.next h).extent e.opts.pagesize size) p := by
  rw [protectmem_eq hal, mem_used]
  by_cases hin : InSpan e.opts.pagesize addr
      ((HostCalls.next h).extent e.opts.pagesize size) p
  · rcases Memory.prot_mprotect_or h.mem Prot.readOnly hin with hp | hp <;>
      simp only [hp, hin, Prot.write_readOnly, Prot.write_none, Bool.false_eq_true,
        not_true, and_false]
  · simp only [Memory.prot_mprotect_of_not hin, hin, not_false_iff, and_true]

variable (e addr size prot box h)

/-- Before the first host call. -/
structure Before (s : State) : Prop where
  box_eq : s.box = box
  pages : s.host.mem.pages = h.mem.pages
  outcomes : s.host.outcomes = h.outcomes
  fed : Memory.Fed e.opts.pagesize s.host.mem h.mem

/-- Between the first host call and the last one. -/
structure Between (s : State) : Prop where
  box_eq : s.box = box
  args : argsValid e addr size box = true
  notWx : has prot LFI_PROT_WRITE = false
  pages : s.host.mem.pages = (protectmem e h addr size Prot.readOnly).2.mem.pages
  outcomes : s.host.outcomes = h.outcomes.tail
  fed : Memory.Fed e.opts.pagesize s.host.mem h.mem

/-- Once the verifier has accepted `bytes`. -/
structure Accepted (s : State) (bytes : List UInt8) : Prop where
  verified : s.host.verified.head? = some (addr, bytes)
  accepted : e.lfivVerify addr bytes = true

/-- What holds at each point of a call made in host state `h`. -/
def Inv (s : State) : Prop :=
  match s.pc with
  | .entry => Before e box h s
  | .protectRead => Before e box h s ∧ argsValid e addr size box = true ∧
      has prot LFI_PROT_WRITE = false
  | .verify => Between e addr size prot box h s
  | .protectFinal => Between e addr size prot box h s ∧
      ∃ bytes, Accepted e addr s bytes ∧
        (s.host.mem.readRange e.opts.pagesize addr size = bytes ∨ Open e addr size h)
  | .record => s.box = box ∧ argsValid e addr size box = true ∧
      has prot LFI_PROT_WRITE = false ∧ (h.outcomes.tail.headD .ok).isOk = true ∧
      ∃ bytes cur, Accepted e addr s bytes ∧ s.committed = some cur ∧
        (cur = bytes ∨ Open e addr size h)
  | .done r => r = 0 → ∃ bytes cur, s.host.verified.head? = some (addr, bytes) ∧
      s.committed = some cur ∧ (cur = bytes ∨ Racy e addr size prot box h)

variable {e addr size prot box h}

theorem Before.store {s : State} (hs : Before e box h s) (a : Nat) (b : UInt8) :
    Before e box h { s with host := HostCalls.store e.opts.pagesize s.host a b } where
  box_eq := hs.box_eq
  pages := (Memory.pages_store a b).trans hs.pages
  outcomes := hs.outcomes
  fed := hs.fed.store fun hw => by
    rwa [Memory.prot_eq_of_pages (congrFun hs.pages _)] at hw

theorem Between.write_iff {s : State} (hs : Between e addr size prot box h s) (p : Nat) :
    (s.host.mem.prot p).write = true ↔ (h.mem.prot p).write = true ∧
      ¬InSpan e.opts.pagesize addr ((HostCalls.next h).extent e.opts.pagesize size) p := by
  rw [Memory.prot_eq_of_pages (congrFun hs.pages p)]
  exact write_protectmem_readOnly (aligned_of_argsValid hs.args) p

theorem Between.store {s : State} (hs : Between e addr size prot box h s) (a : Nat)
    (b : UInt8) : Between e addr size prot box h
      { s with host := HostCalls.store e.opts.pagesize s.host a b } where
  box_eq := hs.box_eq
  args := hs.args
  notWx := hs.notWx
  pages := (Memory.pages_store a b).trans hs.pages
  outcomes := hs.outcomes
  fed := hs.fed.store fun hw => ((hs.write_iff _).mp hw).1

/-- A store between the two host calls that changes accepted contents needs a window. -/
theorem Between.readRange_store {s : State} (hs : Between e addr size prot box h s)
    (hacc : e.lfivVerify addr (s.host.mem.readRange e.opts.pagesize addr size) = true)
    (a : Nat) (b : UInt8) :
    (s.host.mem.store e.opts.pagesize a b).readRange e.opts.pagesize addr size =
        s.host.mem.readRange e.opts.pagesize addr size ∨ Open e addr size h := by
  rcases Memory.readRange_store_or e.opts.pagesize s.host.mem addr size a b
    with heq | ⟨hw, x, hlo, hhi, hcell⟩
  · exact .inl heq
  · obtain ⟨hw, hfirst⟩ := (hs.write_iff _).mp hw
    obtain ⟨stores, hstores⟩ := hs.fed
    rw [hstores.cell, hstores.target] at hcell
    rw [hstores.readRange] at hacc
    exact .inr ⟨stores, hacc, a, x, hlo, hhi, hcell, hw, hfirst⟩

theorem inv_store {s : State} (hs : Inv e addr size prot box h s) (a : Nat) (b : UInt8) :
    Inv e addr size prot box h
      { s with host := HostCalls.store e.opts.pagesize s.host a b } := by
  obtain ⟨sbox, shost, pc, committed⟩ := s
  cases pc with
  | entry => exact hs.store a b
  | protectRead => exact ⟨hs.1.store a b, hs.2⟩
  | verify => exact hs.store a b
  | protectFinal =>
      obtain ⟨hbetween, bytes, hacc, hbytes⟩ := hs
      refine ⟨hbetween.store a b, bytes, ⟨hacc.verified, hacc.accepted⟩, ?_⟩
      rcases hbytes with rfl | hopen
      · exact hbetween.readRange_store hacc.accepted a b
      · exact .inr hopen
  | record =>
      obtain ⟨hbox, hargs, hwx, hfinal, bytes, cur, hacc, hrest⟩ := hs
      exact ⟨hbox, hargs, hwx, hfinal, bytes, cur, ⟨hacc.verified, hacc.accepted⟩, hrest⟩
  | done r => exact hs

theorem inv_next {s : State} (hv : e.opts.noVerify = false)
    (hx : has prot LFI_PROT_EXEC = true) (hs : Inv e addr size prot box h s) :
    Inv e addr size prot box h (next e addr size prot s) := by
  obtain ⟨sbox, shost, pc, committed⟩ := s
  cases pc with
  | entry =>
      obtain rfl : sbox = box := hs.box_eq
      simp only [next, hv, skipsVerifier_eq_false hx, hx, Bool.and_true]
      cases hargs : argsValid e addr size sbox with
      | false => exact fun hr => absurd hr (by decide)
      | true =>
          cases hw : has prot LFI_PROT_WRITE with
          | true => exact fun hr => absurd hr (by decide)
          | false => exact ⟨⟨rfl, hs.pages, hs.outcomes, hs.fed⟩, hargs, hw⟩
  | protectRead =>
      obtain ⟨hbefore, hargs, hw⟩ := hs
      refine ⟨hbefore.box_eq, hargs, hw, ?_, ?_, ?_⟩
      · exact pages_protectmem_congr (aligned_of_argsValid hargs) hbefore.pages hbefore.outcomes _
      · exact (outcomes_protectmem (aligned_of_argsValid hargs) _).trans
          (congrArg _ hbefore.outcomes)
      · exact hbefore.fed.of_sameBytes (sameBytes_protectmem (aligned_of_argsValid hargs) _)
  | verify =>
      rcases lfivVerify_cases e.opts.pagesize e shost addr size with
        ⟨hacc, heq⟩ | ⟨-, heq⟩
      · simp only [next, heq]
        exact ⟨⟨hs.box_eq, hs.args, hs.notWx, hs.pages, hs.outcomes, hs.fed⟩,
          _, ⟨rfl, hacc⟩, .inl rfl⟩
      · simp only [next, heq]
        exact fun hr => absurd hr (by decide)
  | protectFinal =>
      obtain ⟨hbetween, bytes, hacc, hbytes⟩ := hs
      have hal := aligned_of_argsValid hbetween.args
      have hfst : (protectmem e shost addr size (hostProt e.target prot)).1 =
          (h.outcomes.tail.headD .ok).isOk := by
        rw [protectmem_eq hal, HostCalls.next]
        exact congrArg (fun l => (l.headD Outcome.ok).isOk) hbetween.outcomes
      simp only [next, hfst]
      cases hfinal : (h.outcomes.tail.headD .ok).isOk with
      | false => exact fun hr => absurd hr (by decide)
      | true =>
          refine ⟨hbetween.box_eq, hbetween.args, hbetween.notWx, hfinal, bytes, _,
            ⟨(congrArg _ (verified_protectmem hal _)).trans hacc.verified, hacc.accepted⟩, rfl, ?_⟩
          rwa [(sameBytes_protectmem hal _).readRange]
  | record =>
      obtain ⟨rfl, hargs, hw, hfinal, bytes, cur, hacc, hcur, hbytes⟩ := hs
      simp only [next]
      intro hr
      have hrecorded : (sbox.mm.protect addr size prot).1 = .kOk := by
        cases hres : (sbox.mm.protect addr size prot).1 with
        | kOk => rfl
        | kInval => simp [hres] at hr
        | kNoMem => simp [hres] at hr
      exact ⟨bytes, cur, hacc.verified, hcur,
        hbytes.imp_right fun hopen => ⟨hargs, hw, hopen, hfinal, hrecorded⟩⟩
  | done r => exact hs

theorem inv_start : Inv e addr size prot box h (start box h) :=
  ⟨rfl, rfl, rfl, .refl _⟩

theorem next_entry_of_valid {s : State} (hv : e.opts.noVerify = false)
    (hx : has prot LFI_PROT_EXEC = true) (hpc : s.pc = .entry)
    (hargs : argsValid e addr size s.box = true) (hw : has prot LFI_PROT_WRITE = false) :
    next e addr size prot s = { s with pc := .protectRead } := by
  simp [next, hpc, hargs, hv, skipsVerifier_eq_false hx, hw]

theorem next_verify_of_accepted {s : State} (hpc : s.pc = .verify)
    (hacc : e.lfivVerify addr (s.host.mem.readRange e.opts.pagesize addr size) = true) :
    next e addr size prot s =
      { s with
        host := { s.host with verified :=
          (addr, s.host.mem.readRange e.opts.pagesize addr size) :: s.host.verified }
        pc := .protectFinal } := by
  simp [next, hpc, HostCalls.lfivVerify, hacc]

theorem next_protectFinal_of_ok {s : State} (hpc : s.pc = .protectFinal)
    (hal : addr % e.opts.pagesize = 0) (hok : (HostCalls.next s.host).isOk = true) :
    next e addr size prot s =
      { s with
        host := (protectmem e s.host addr size (hostProt e.target prot)).2
        pc := .record
        committed := some (s.host.mem.readRange e.opts.pagesize addr size) } := by
  have hfst : (protectmem e s.host addr size (hostProt e.target prot)).1 = true := by
    rw [protectmem_eq hal, hok]
  simp only [next, hpc, hfst, (sameBytes_protectmem hal _).readRange, if_true]

theorem next_record_of_ok {s : State} (hpc : s.pc = .record)
    (hrecorded : (s.box.mm.protect addr size prot).1 = .kOk) :
    next e addr size prot s =
      { s with
        box := { s.box with mm := (s.box.mm.protect addr size prot).2.1 }
        pc := .done 0 } := by
  simp only [next, hpc, hrecorded]

theorem lfiBoxMprotect_of_invalid (hargs : argsValid e addr size box = false) :
    lfiBoxMprotect e box h addr size prot = (-1, box, h) := by
  simp only [lfiBoxMprotect, boxMprotectLocked]
  split
  · rfl
  · rename_i hsize
    have hbuf : lfiBoxBufvalid box addr size = false := by
      simp only [argsValid, Bool.and_eq_false_iff] at hargs
      refine hargs.resolve_left ?_
      simpa using hsize
    simp [hbuf]

theorem lfiBoxMprotect_of_valid (hargs : argsValid e addr size box = true) :
    lfiBoxMprotect e box h addr size prot =
      let r := protectverify e h addr size prot false
      let p := box.mm.protect addr size prot
      if r.1 then
        (match p.1 with | .kOk => 0 | .kInval => 1 | .kNoMem => 2, { box with mm := p.2.1 }, r.2)
      else (-1, box, r.2) := by
  simp only [argsValid, Bool.and_eq_true, Bool.not_eq_true', Bool.or_eq_false_iff,
    beq_eq_false_iff_ne, bne_eq_false_iff_eq] at hargs
  obtain ⟨⟨⟨hsize, haddr⟩, hlen⟩, hbuf⟩ := hargs
  simp only [lfiBoxMprotect, boxMprotectLocked, hsize, haddr, hlen, hbuf, ne_eq,
    not_true, or_self, if_false, Bool.not_true, Bool.false_eq_true]
  cases (protectverify e h addr size prot false).1 with
  | false => rfl
  | true =>
      obtain ⟨err, mm, pieces⟩ := box.mm.protect addr size prot
      cases err <;> rfl

theorem protectverify_eq (hv : e.opts.noVerify = false) (hx : has prot LFI_PROT_EXEC = true)
    (hw : has prot LFI_PROT_WRITE = false) :
    protectverify e h addr size prot false =
      let v := HostCalls.lfivVerify e.opts.pagesize e
        (protectmem e h addr size Prot.readOnly).2 addr size
      if v.1 then protectmem e v.2 addr size (hostProt e.target prot) else (false, v.2) := by
  simp only [protectverify, hv, Bool.or_false, skipsVerifier_eq_false hx, hw, Bool.false_and,
    Bool.false_eq_true, if_false]
  generalize HostCalls.lfivVerify _ e _ addr size = v
  cases v.1 <;> rfl

/-- Without stores in between, the steps are the call. -/
theorem steps_eq_lfiBoxMprotect (hv : e.opts.noVerify = false)
    (hx : has prot LFI_PROT_EXEC = true) (box : LFIBox) (h : Host) :
    let s := (next e addr size prot)^[5] (start box h)
    let r := lfiBoxMprotect e box h addr size prot
    s.pc = .done r.1 ∧ s.box = r.2.1 ∧ s.host = r.2.2 := by
  simp only [Function.iterate_succ, Function.iterate_zero, Function.comp, id]
  cases hargs : argsValid e addr size box with
  | false => simp [next, start, hargs, lfiBoxMprotect_of_invalid hargs]
  | true =>
      rw [lfiBoxMprotect_of_valid hargs]
      cases hw : has prot LFI_PROT_WRITE with
      | true =>
          simp [next, start, hargs, hv, skipsVerifier_eq_false hx, hx, hw, protectverify]
      | false =>
          rw [protectverify_eq hv hx hw,
            next_entry_of_valid (s := start box h) hv hx rfl hargs hw]
          have hread : next e addr size prot { start box h with pc := .protectRead } =
              ⟨box, (protectmem e h addr size Prot.readOnly).2, .verify, none⟩ := rfl
          rw [hread]
          generalize (protectmem e h addr size Prot.readOnly).2 = readable
          rcases lfivVerify_cases e.opts.pagesize e readable addr size with
            ⟨hacc, heq⟩ | ⟨-, heq⟩
          · have hverify : next e addr size prot ⟨box, readable, .verify, none⟩ = _ :=
              next_verify_of_accepted rfl hacc
            rw [hverify, heq]
            simp only [next, if_true]
            cases (protectmem e _ addr size (hostProt e.target prot)).1 <;> simp
          · simp [next, heq]

/-- A call that cannot be raced is safe. -/
theorem safe_of_not_racy (hv : e.opts.noVerify = false)
    (hx : has prot LFI_PROT_EXEC = true) (hnot : ¬Racy e addr size prot box h) :
    Safe e addr size prot box h := by
  intro s hreach
  have hinv : Inv e addr size prot box h s := by
    refine hreach.invariant inv_start fun s l t hs _ hstep => ?_
    cases l with
    | next =>
        rw [show t = _ from hstep]
        exact inv_next hv hx hs
    | store a b =>
        rw [show t = _ from hstep]
        exact inv_store hs a b
  intro hdone
  rw [Inv, hdone] at hinv
  obtain ⟨bytes, cur, hverified, hcur, hbytes⟩ := hinv rfl
  obtain rfl := hbytes.resolve_right hnot
  exact ⟨cur, hverified, hcur⟩

theorem reaches_next {s₀ s t : State} (hs : Reaches (step e addr size prot) anyStep s₀ s)
    (ht : next e addr size prot s = t) : Reaches (step e addr size prot) anyStep s₀ t :=
  hs.tail (l := .next) trivial ht.symm

theorem reaches_storeAll {s : State} (stores : List (Nat × UInt8)) :
    Reaches (step e addr size prot) anyStep s
      { s with host :=
          { s.host with mem := s.host.mem.storeAll e.opts.pagesize stores } } := by
  induction stores generalizing s with
  | nil => exact .refl _
  | cons st stores ih =>
      exact (Reaches.refl s).tail (l := .store st.1 st.2) trivial rfl |>.trans ih

/-- The raced run: stores that make the range acceptable, the first two host
calls, one store through the window, the last host call. -/
theorem not_safe_of_racy (hv : e.opts.noVerify = false)
    (hx : has prot LFI_PROT_EXEC = true) (hracy : Racy e addr size prot box h) :
    ¬Safe e addr size prot box h := by
  intro hsafe
  obtain ⟨hargs, hw, ⟨stores, hacc, a, x, hlo, hhi, hcell, hpage, hfirst⟩, hfinal, hrecorded⟩ :=
    hracy
  have hal := aligned_of_argsValid hargs
  let fed : Host := { h with mem := h.mem.storeAll e.opts.pagesize stores }
  let readable : Host := (protectmem e fed addr size Prot.readOnly).2
  have hsame : Memory.SameBytes readable.mem fed.mem := sameBytes_protectmem hal _
  have hout : readable.outcomes = h.outcomes.tail := outcomes_protectmem (h := fed) hal _
  let bytes := readable.mem.readRange e.opts.pagesize addr size
  let checked : Host := { readable with verified := (addr, bytes) :: readable.verified }
  let b := readable.mem.read e.opts.pagesize x + 1
  let raced : Host := HostCalls.store e.opts.pagesize checked a b
  have hentry : Reaches (step e addr size prot) anyStep (start box h)
      ⟨box, fed, .protectRead, none⟩ :=
    reaches_next (reaches_storeAll stores) (next_entry_of_valid hv hx rfl hargs hw)
  have hread : Reaches (step e addr size prot) anyStep (start box h)
      ⟨box, readable, .verify, none⟩ :=
    reaches_next hentry rfl
  have hchecked : Reaches (step e addr size prot) anyStep (start box h)
      ⟨box, checked, .protectFinal, none⟩ :=
    reaches_next hread (next_verify_of_accepted rfl (by rwa [hsame.readRange]))
  have hraced : Reaches (step e addr size prot) anyStep (start box h)
      ⟨box, raced, .protectFinal, none⟩ :=
    hchecked.tail (l := .store a b) trivial rfl
  have hlast : (HostCalls.next raced).isOk = true := by
    change (readable.outcomes.headD .ok).isOk = true
    rw [hout, hfinal]
  have hcommit := reaches_next hraced (next_protectFinal_of_ok rfl hal hlast)
  have hdone := reaches_next hcommit (next_record_of_ok rfl hrecorded)
  obtain ⟨final, hverified, hcommitted⟩ := hsafe _ hdone rfl
  have hfinal : final = bytes := by
    simpa [raced, checked, HostCalls.store, eq_comm, verified_protectmem hal] using hverified
  have hbytes : raced.mem.readRange e.opts.pagesize addr size = bytes :=
    (Option.some.inj hcommitted).trans hfinal
  have hkept := Memory.read_eq_of_readRange_eq hbytes hlo hhi
  have hwrite : (readable.mem.prot (a / e.opts.pagesize)).write = true := by
    refine (write_protectmem_readOnly hal _).mpr ⟨?_, hfirst⟩
    rwa [Memory.prot_storeAll]
  have hchanged : raced.mem.read e.opts.pagesize x = b :=
    Memory.read_store_of_eq hwrite (by rwa [hsame.cell, hsame.target])
  rw [hchanged] at hkept
  exact absurd hkept (by simp [b])

end

/-- A box with one page mapped, at its lowest address. -/
def onePageBox : LFIBox :=
  { emptyBox with
    mm := { emptyBox.mm with regions := [⟨0x100001, 0x100002, ⟨3, 34, -1, 0⟩⟩] } }

/-- The page is writable and full of `nop`. -/
def nopHost (outcomes : List Outcome) : Host where
  mem :=
    { pages := fun p => if p = 0x100001 then some ⟨Prot.readWrite, .priv⟩ else none
      priv := fun _ => 0x90
      files := fun _ _ => 0 }
  outcomes := outcomes
  verified := []

theorem nopEngine_accepts (outcomes : List Outcome) (size : Nat) :
    nopEngine.lfivVerify onePageBox.min
      ((nopHost outcomes).mem.readRange 4096 onePageBox.min size) = true := by
  simp only [nopEngine, List.all_eq_true, decide_eq_true_eq, Memory.readRange, List.mem_map,
    forall_exists_index, and_imp]
  rintro b i - rfl
  simp only [Memory.read, Memory.cell, Memory.backing, nopHost]
  split_ifs <;> rfl

/-- The host refuses to make the page read-only, and a thread writes to it
after it was verified. -/
theorem raced_when_protect_fails :
    nopEngine.opts.noVerify = false ∧ has (LFI_PROT_READ ||| LFI_PROT_EXEC) LFI_PROT_EXEC ∧
      ¬Safe nopEngine onePageBox.min 4096 (LFI_PROT_READ ||| LFI_PROT_EXEC) onePageBox
        (nopHost [.fail 0]) := by
  refine ⟨rfl, by decide, not_safe_of_racy rfl (by decide) ?_⟩
  exact
    { args := by decide
      notWx := by decide
      opened := ⟨[], nopEngine_accepts _ _, onePageBox.min, onePageBox.min, le_refl _, by decide,
        .inl rfl, by decide, by decide⟩
      final := rfl
      recorded := by decide }

/-- What becomes executable is what was verified, in every interleaving, for
exactly the calls that are not racy. -/
theorem safe_iff_not_racy {e : Engine} {addr size : Nat} {prot : BitVec 32} {box : LFIBox}
    {h : Host} (hv : e.opts.noVerify = false) (hx : has prot LFI_PROT_EXEC = true) :
    Safe e addr size prot box h ↔ ¬Racy e addr size prot box h :=
  ⟨fun hsafe hracy => not_safe_of_racy hv hx hracy hsafe, safe_of_not_racy hv hx⟩

/-- The same call is safe when the host makes the page read-only. -/
theorem safe_when_protect_succeeds :
    Safe nopEngine onePageBox.min 4096 (LFI_PROT_READ ||| LFI_PROT_EXEC) onePageBox
      (nopHost []) := by
  refine (safe_iff_not_racy rfl (by decide)).mpr fun hracy => ?_
  obtain ⟨stores, -, a, x, -, -, -, hwrite, hout⟩ := hracy.opened
  refine hout ?_
  have hpage : a / 4096 = 0x100001 := by
    by_contra hne
    have hnone : (nopHost []).mem.prot (a / 4096) = Prot.none := by
      simp [Memory.prot, nopHost, hne]
    rw [show nopEngine.opts.pagesize = 4096 from rfl, hnone] at hwrite
    exact absurd hwrite (by decide)
  rw [show nopEngine.opts.pagesize = 4096 from rfl, hpage]
  decide

end LfiRuntime.MprotectRace
