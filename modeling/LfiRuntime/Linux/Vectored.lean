import Mathlib.Tactic
import LfiRuntime.Lib.MemoryWords
import LfiRuntime.Linux.BoxRange
import LfiRuntime.Linux.FdCalls

/-!
`sys_readv` and `sys_writev`, which call `sys_read` and `sys_write` for each element of
the list.
-/

namespace LfiRuntime.Vectored

open LfiRuntime.Fd
open LfiRuntime.Handles
open LfiRuntime.PagedMemory

def IOV_MAX_LFI : Nat := 1024
def LINUX_EISDIR : Int := 21
def LINUX_O_PATH : BitVec 32 := 0x200000

/-- The error numbers of the host that `host_err` knows. -/
inductive HostErrno
  | ENOSYS
  | EINVAL
  | ENOENT
  | EBADF
  | EAGAIN
  | EPERM
  | ENOMEM
  | EACCES
  | ENOTDIR
  | EMFILE
  | EFAULT
  | ENXIO
  | other
deriving DecidableEq, Repr

def hostErr : HostErrno → Int
  | .ENOSYS => -38
  | .EINVAL => -22
  | .ENOENT => -2
  | .EBADF => -9
  | .EAGAIN => -11
  | .EPERM => -1
  | .ENOMEM => -12
  | .EACCES => -13
  | .ENOTDIR => -20
  | .EMFILE => -24
  | .EFAULT => -14
  | HostErrno.ENXIO => -6
  | .other => -22

structure IOVec where
  base : Nat
  len : Nat
deriving DecidableEq, Repr

/-- The memory, and the open file behind the descriptor with its position. -/
structure Data where
  mem : Nat → UInt8
  file : Nat → UInt8
  pos : Nat

/-- `calls` are the calls of `read` or `write` that the host has got, each with the number
of bytes that it has transferred, or nothing where it has failed. -/
structure World (φ : Type*) where
  sys : Sys φ
  data : Data
  calls : List (IOVec × Option Nat)

inductive Op
  | read
  | write
deriving DecidableEq, Repr

/-- One byte goes from the file to the memory, or the other way. -/
def Op.byte (op : Op) (d : Data) (a : Nat) : Data :=
  match op with
  | .read => { d with mem := Function.update d.mem a (d.file d.pos), pos := d.pos + 1 }
  | .write => { d with file := Function.update d.file d.pos (d.mem a), pos := d.pos + 1 }

/-- The answers of the host for one element. -/
structure Answer where
  fd : Answers
  io : Except HostErrno Nat

variable {φ : Type*}

/-- `read` or `write`, which transfers no more than the length that it is given. -/
def hostIo (op : Op) (w : World φ) (buf : IOVec) (answer : Except HostErrno Nat) : Int × World φ :=
  match answer with
  | .error err => (hostErr err, { w with calls := w.calls ++ [(buf, none)] })
  | .ok n =>
    (↑(min n buf.len), { w with
      data := (List.range' buf.base (min n buf.len)).foldl op.byte w.data
      calls := w.calls ++ [(buf, some (min n buf.len))] })

/-- What `sys_read` says of the host descriptor, its flags and whether it is a directory. -/
def readCheck : Int × Int × Bool → Option Int
  | (kfd, flags, isdir) =>
    if kfd = -1 then some (-LINUX_EBADF)
    else if BitVec.ofInt 32 flags &&& LINUX_O_PATH ≠ 0 then some (-LINUX_EBADF)
    else if isdir then some (-LINUX_EISDIR)
    else none

/-- What `sys_write` says. -/
def writeCheck : Int × Int × Bool → Option Int
  | (kfd, _, _) => if kfd = -1 then some (-LINUX_EBADF) else none

def Op.check : Op → Int × Int × Bool → Option Int
  | .read => readCheck
  | .write => writeCheck

section

variable (op : Op) (box : BoxRange.Box) (fd : Int)

/-- `sys_read` or `sys_write`. -/
def sysIo (w : World φ) (a : Answer) (v : IOVec) : Int × World φ :=
  if v.len = 0 then (0, w)
  else
    let f := w.sys.fdacquire a.fd fd
    let w := { w with sys := f.2 }
    let u :=
      match op.check f.1 with
      | some err => (err, w)
      | none =>
        match box.bufhost v.base v.len 1 with
        | none => (-LINUX_EINVAL, w)
        | some buf => hostIo op w ⟨buf, v.len⟩ a.io
    (u.1, { u.2 with sys := u.2.sys.fdrelease f.1.1 })

/-- The loop over the elements. -/
def vecFrom : Int → World φ → List (IOVec × Answer) → Int × World φ
  | total, w, [] => (total, w)
  | total, w, (v, a) :: rest =>
    let u := sysIo op box fd w a v
    if u.1 < 0 then u else vecFrom (total + u.1) u.2 rest

/-- The number of 8 bytes at `p`. -/
def word (mem : Nat → UInt8) (p : Nat) : Nat := (wordAt mem p).toNat

/-- The list that `copyout` copies. -/
def iovs (mem : Nat → UInt8) (iovp iovcnt : Nat) : List IOVec :=
  (List.range iovcnt).map fun i => ⟨word mem (iovp + 16 * i), word mem (iovp + 16 * i + 8)⟩

/-- `sys_readv` or `sys_writev`. -/
def sysVec (w : World φ) (malloc : Bool) (answers : Nat → Answer) (iovp iovcnt : Nat) :
    Int × World φ :=
  if iovcnt > IOV_MAX_LFI then (-LINUX_EINVAL, w)
  else if iovcnt = 0 then (0, w)
  else if !box.bufcheck iovp (iovcnt * 16) 8 then (-LINUX_EINVAL, w)
  else if !malloc then (-LINUX_ENOMEM, w)
  else
    vecFrom op box fd 0 w
      ((iovs w.data.mem iovp iovcnt).zip ((List.range iovcnt).map answers))

end

def sysReadv (box : BoxRange.Box) (fd : Int) (w : World φ) (malloc : Bool) (answers : Nat → Answer)
    (iovp iovcnt : Nat) : Int × World φ :=
  sysVec .read box fd w malloc answers iovp iovcnt

def sysWritev (box : BoxRange.Box) (fd : Int) (w : World φ) (malloc : Bool) (answers : Nat → Answer)
    (iovp iovcnt : Nat) : Int × World φ :=
  sysVec .write box fd w malloc answers iovp iovcnt

/-! One contiguous transfer. -/

/-- The buffers, one behind the other. -/
def addrs (vs : List IOVec) : List Nat := vs.flatMap fun v => List.range' v.base v.len

/-- Where the bytes are that the calls have transferred. -/
def moved (calls : List (IOVec × Option Nat)) : List Nat :=
  calls.flatMap fun c => List.range' c.1.base (c.2.getD 0)

/-- The call has transferred all bytes. -/
def Full (c : IOVec × Option Nat) : Prop := c.2 = some c.1.len

/-- What the loop has returned and which calls it has made are those of one transfer, where
`sofar` bytes have been transferred before. -/
structure Contiguous (vs : List IOVec) (sofar : Nat) (r : Int) (calls : List (IOVec × Option Nat)) :
    Prop where
  isPrefix : moved calls <+: addrs vs
  stops : ∀ c ∈ calls.dropLast, Full c
  result : 0 ≤ r → r = ↑(sofar + (moved calls).length)
  error : r < 0 → sofar + (moved calls).length = 0

/-- A prefix of the buffers has been transferred, at consecutive positions of the file, and
its length is the result. -/
def OneTransfer (op : Op) (vs : List IOVec) (w : World φ) (u : Int × World φ) : Prop :=
  ∃ calls, u.2.calls = w.calls ++ calls ∧ u.2.data = (moved calls).foldl op.byte w.data ∧
    Contiguous vs 0 u.1 calls

/-! What becomes of the elements. -/

inductive Outcome
  | empty
  | refused (r : Int)
  | failed (r : Int)
  | moved (n : Nat)
deriving DecidableEq, Repr

/-- What becomes of an element if the loop gets to it. -/
def outcome (op : Op) (box : BoxRange.Box) (fd : Int) (sys : Sys φ) (v : IOVec) (a : Answer) :
    Outcome :=
  if v.len = 0 then .empty
  else
    match op.check (sys.fdacquire a.fd fd).1 with
    | some err => .refused err
    | none =>
      if box.bufcheck v.base v.len 1 then
        match a.io with
        | .error err => .failed (hostErr err)
        | .ok n => .moved (min n v.len)
      else .refused (-LINUX_EINVAL)

abbrev Elem := IOVec × Outcome

def outcomes (op : Op) (box : BoxRange.Box) (fd : Int) (sys : Sys φ) (l : List (IOVec × Answer)) :
    List Elem :=
  l.map fun p => (p.1, outcome op box fd sys p.1 p.2)

/-- The next element that is not empty fails before the host is asked. -/
def Refuses : List Elem → Prop
  | [] => False
  | (_, .empty) :: l => Refuses l
  | (_, .refused _) :: _ => True
  | (_, .failed _) :: _ => False
  | (_, .moved _) :: _ => False

/-- An element fails only if nothing has been transferred before, and where one is not
transferred whole there is nothing behind it. `clean` says that nothing has been transferred
so far. -/
def StopsClean : Prop → List Elem → Prop
  | _, [] => True
  | clean, (_, .empty) :: l => StopsClean clean l
  | clean, (_, .refused _) :: _ => clean
  | clean, (_, .failed _) :: _ => clean
  | clean, (v, .moved n) :: l =>
    if n = v.len then StopsClean False l
    else (∀ q ∈ l, q.1.len = 0) ∨ (n = 0 ∧ clean ∧ Refuses l)

/-- What an element returns, and the calls that the host gets. -/
def Outcome.result (v : IOVec) : Outcome → Int × List (IOVec × Option Nat)
  | .empty => (0, [])
  | .refused r => (r, [])
  | .failed r => (r, [(v, none)])
  | .moved n => (n, [(v, some n)])

/-- The loop over the outcomes. -/
def runFrom : Int → List Elem → Int × List (IOVec × Option Nat)
  | total, [] => (total, [])
  | total, (v, o) :: l =>
    let u := o.result v
    if u.1 < 0 then u
    else ((runFrom (total + u.1) l).1, u.2 ++ (runFrom (total + u.1) l).2)

section

variable {op : Op} {box : BoxRange.Box} {fd : Int} {s s' : Sys φ} {w : World φ} {a : Answer}
  {v : IOVec}

/-- Nothing has changed that `fdacquire` looks at. -/
structure Alike (s s' : Sys φ) : Prop where
  t : s'.t = s.t
  content : s'.host.content = s.host.content

theorem Alike.refl (s : Sys φ) : Alike s s := ⟨rfl, rfl⟩

theorem dup_congr (h : Alike s s') (answer : Option Int) (k : Int) :
    (s'.dup answer k).map Prod.fst = (s.dup answer k).map Prod.fst := by
  simp only [Sys.dup, h.content]
  split
  · split <;> rfl
  · rfl

theorem fdacquire_fst (s : Sys φ) (a : Answers) (fd : Int) :
    (s.fdacquire a fd).1 =
      if s.t.passthrough then (fd, 0, false)
      else (slotOf fd).elim (-1, 0, false) fun fd =>
        if s.t.fds fd = -1 then (-1, 0, false)
        else (((s.dup a.dup (s.t.fds fd)).map Prod.fst).getD (-1), s.t.flags fd,
          (s.t.dirs fd).isSome) := by
  rw [Sys.fdacquire]
  split
  · rfl
  · cases slotOf fd with
    | none => rfl
    | some slot =>
        dsimp only [Option.elim_some]
        split
        · rfl
        · cases s.dup a.dup (s.t.fds slot) <;> rfl

theorem fdacquire_congr (h : Alike s s') (a : Answers) (fd : Int) :
    (s'.fdacquire a fd).1 = (s.fdacquire a fd).1 := by
  simp only [fdacquire_fst, h.t, dup_congr h]

/-- What has been borrowed is given back. -/
theorem alike_release (s : Sys φ) (a : Answers) (fd : Int) :
    Alike s ((s.fdacquire a fd).2.fdrelease (s.fdacquire a fd).1.1) := by
  rw [Sys.fdacquire]
  split
  · rename_i hpass
    simp only [Sys.fdrelease, hpass, if_true]
    exact .refl s
  · rename_i hactive
    have hfree : s.fdrelease (-1) = s := by
      simp [Sys.fdrelease]
    cases slotOf fd with
    | none =>
        dsimp only
        rw [hfree]
        exact .refl s
    | some slot =>
        dsimp only
        split
        · rw [hfree]
          exact .refl s
        · cases hdup : s.dup a.dup (s.t.fds slot) with
          | none =>
              dsimp only
              rw [hfree]
              exact .refl s
          | some p =>
              obtain ⟨file, -, hnew, hnone, hs⟩ := dup_some hdup
              dsimp only
              rw [hs, Sys.fdrelease, if_neg hactive, if_pos hnew]
              refine ⟨rfl, ?_⟩
              simp only [Ledger.content_close, Ledger.content_create, Function.update_idem]
              rw [← hnone, Function.update_eq_self]

/-- The loop does with an element what its outcome says. -/
theorem sysIo_spec (h : Alike s w.sys) (a : Answer) (v : IOVec) :
    let u := sysIo op box fd w a v
    let o := outcome op box fd s v a
    u.1 = (o.result v).1 ∧ u.2.calls = w.calls ++ (o.result v).2 ∧
      u.2.data = (moved (o.result v).2).foldl op.byte w.data ∧ Alike s u.2.sys := by
  intro u o
  have hrelease := alike_release w.sys a.fd fd
  have hafter : Alike s ((w.sys.fdacquire a.fd fd).2.fdrelease (w.sys.fdacquire a.fd fd).1.1) :=
    ⟨hrelease.t.trans h.t, hrelease.content.trans h.content⟩
  simp only [u, o, sysIo, outcome, ← fdacquire_congr h]
  split
  · exact ⟨rfl, (List.append_nil _).symm, rfl, h⟩
  · cases op.check (w.sys.fdacquire a.fd fd).1 with
    | some err => exact ⟨rfl, (List.append_nil _).symm, rfl, hafter⟩
    | none =>
        rw [BoxRange.Box.bufhost]
        cases box.bufcheck v.base v.len 1 with
        | false => exact ⟨rfl, (List.append_nil _).symm, rfl, hafter⟩
        | true =>
            simp only [if_true]
            cases a.io with
            | error err => exact ⟨rfl, rfl, rfl, hafter⟩
            | ok n =>
                refine ⟨rfl, rfl, ?_, hafter⟩
                simp [hostIo, Outcome.result, moved]

theorem moved_append (calls calls' : List (IOVec × Option Nat)) :
    moved (calls ++ calls') = moved calls ++ moved calls' := List.flatMap_append

theorem vecFrom_spec (h : Alike s w.sys) (total : Int) (l : List (IOVec × Answer)) :
    let u := vecFrom op box fd total w l
    let v := runFrom total (outcomes op box fd s l)
    u.1 = v.1 ∧ u.2.calls = w.calls ++ v.2 ∧ u.2.data = (moved v.2).foldl op.byte w.data := by
  induction l generalizing total w with
  | nil => exact ⟨rfl, (List.append_nil _).symm, rfl⟩
  | cons p l ih =>
      obtain ⟨v, a⟩ := p
      obtain ⟨hres, hcalls, hdata, hafter⟩ := @sysIo_spec _ op box fd _ _ h a v
      rw [outcomes, List.map_cons, ← outcomes]
      dsimp only [vecFrom, runFrom]
      rw [← hres]
      split
      · exact ⟨hres, hcalls, hdata⟩
      · obtain ⟨hres', hcalls', hdata'⟩ := ih hafter (total + (sysIo op box fd w a v).1)
        refine ⟨hres', ?_, ?_⟩
        · rw [hcalls', hcalls, List.append_assoc]
        · rw [hdata', hdata, moved_append, List.foldl_append]

end

/-! When the loop makes one transfer. -/

structure Sane (p : Elem) : Prop where
  empty : p.2 = .empty ↔ p.1.len = 0
  refused : ∀ r, p.2 = .refused r → r < 0
  failed : ∀ r, p.2 = .failed r → r < 0
  moved : ∀ n, p.2 = .moved n → n ≤ p.1.len

theorem check_lt {op : Op} {f : Int × Int × Bool} {r : Int} (h : op.check f = some r) : r < 0 := by
  obtain ⟨kfd, flags, isdir⟩ := f
  cases op <;> simp only [Op.check, readCheck, writeCheck] at h <;> split_ifs at h <;>
    · obtain rfl := Option.some.inj h
      decide

theorem hostErr_lt (err : HostErrno) : hostErr err < 0 := by cases err <;> decide

theorem sane_outcome (op : Op) (box : BoxRange.Box) (fd : Int) (s : Sys φ) (v : IOVec) (a : Answer) :
    Sane (v, outcome op box fd s v a) := by
  rw [outcome]
  split
  · rename_i hlen
    exact ⟨by simp [hlen], by simp, by simp, by simp⟩
  · rename_i hlen
    cases hcheck : op.check (s.fdacquire a.fd fd).1 with
    | some err => exact ⟨by simp [hlen], by simp [check_lt hcheck], by simp, by simp⟩
    | none =>
        dsimp only
        split
        · cases a.io with
          | error err => exact ⟨by simp [hlen], by simp, by simp [hostErr_lt], by simp⟩
          | ok n => exact ⟨by simp [hlen], by simp, by simp, by simp⟩
        · exact ⟨by simp [hlen], by simp [LINUX_EINVAL], by simp, by simp⟩

theorem sane_outcomes (op : Op) (box : BoxRange.Box) (fd : Int) (s : Sys φ)
    (l : List (IOVec × Answer)) :
    ∀ p ∈ outcomes op box fd s l, Sane p := by
  intro p hp
  obtain ⟨q, -, rfl⟩ := List.mem_map.mp hp
  exact sane_outcome op box fd s q.1 q.2

theorem runFrom_error (total : Int) {v : IOVec} {o : Outcome} (l : List Elem)
    (hlt : (o.result v).1 < 0) : runFrom total ((v, o) :: l) = o.result v := by
  rw [runFrom]
  exact if_pos hlt

theorem runFrom_moved (total : Int) (v : IOVec) (n : Nat) (l : List Elem) :
    runFrom total ((v, .moved n) :: l) =
      ((runFrom (total + n) l).1, (v, some n) :: (runFrom (total + n) l).2) := by
  have hge : ¬((n : Int) < 0) := by omega
  rw [runFrom]
  exact if_neg hge

theorem runFrom_empty (total : Int) (v : IOVec) (l : List Elem) :
    runFrom total ((v, .empty) :: l) = runFrom total l := by
  simp [runFrom, Outcome.result]

/-- There is nothing left, or the next element is refused, or the host gets another call. -/
theorem runFrom_next {l : List Elem} (hs : ∀ p ∈ l, Sane p) (total : Int) :
    (∀ q ∈ l, q.1.len = 0) ∧ runFrom total l = (total, []) ∨
      ¬(∀ q ∈ l, q.1.len = 0) ∧ Refuses l ∧ (runFrom total l).1 < 0 ∧ (runFrom total l).2 = [] ∨
      ¬(∀ q ∈ l, q.1.len = 0) ∧ ¬Refuses l ∧ (runFrom total l).2 ≠ [] := by
  induction l with
  | nil => exact .inl ⟨by simp, rfl⟩
  | cons p l ih =>
      obtain ⟨v, o⟩ := p
      have hp := hs (v, o) List.mem_cons_self
      have hrest := ih fun q hq => hs q (List.mem_cons_of_mem _ hq)
      have hlen : o ≠ .empty → ¬∀ q ∈ (v, o) :: l, q.1.len = 0 := by
        intro hne hall
        exact hne (hp.empty.mpr (hall _ List.mem_cons_self))
      cases o with
      | empty =>
          have hzero : v.len = 0 := hp.empty.mp rfl
          simpa only [runFrom_empty, Refuses, List.forall_mem_cons, hzero, true_and] using hrest
      | refused r =>
          have hlt : ((Outcome.refused r).result v).1 < 0 := hp.refused r rfl
          rw [runFrom_error total l hlt]
          exact .inr (.inl ⟨hlen (by simp), trivial, hlt, rfl⟩)
      | failed r =>
          have hlt : ((Outcome.failed r).result v).1 < 0 := hp.failed r rfl
          rw [runFrom_error total l hlt]
          exact .inr (.inr ⟨hlen (by simp), id, by simp [Outcome.result]⟩)
      | moved n =>
          rw [runFrom_moved]
          exact .inr (.inr ⟨hlen (by simp), id, by simp⟩)

theorem addrs_cons (v : IOVec) (vs : List IOVec) :
    addrs (v :: vs) = List.range' v.base v.len ++ addrs vs := List.flatMap_cons ..

theorem moved_cons (v : IOVec) (n : Nat) (calls : List (IOVec × Option Nat)) :
    moved ((v, some n) :: calls) = List.range' v.base n ++ moved calls := List.flatMap_cons ..

/-- A call that has transferred all it could is the start of a transfer. -/
theorem contiguous_full (v : IOVec) (vs : List IOVec) (sofar : Nat) (r : Int)
    (calls : List (IOVec × Option Nat)) :
    Contiguous (v :: vs) sofar r ((v, some v.len) :: calls) ↔
      Contiguous vs (sofar + v.len) r calls := by
  have hlen : sofar + (moved ((v, some v.len) :: calls)).length =
      sofar + v.len + (moved calls).length := by
    rw [moved_cons, List.length_append, List.length_range', Nat.add_assoc]
  have hstops : (∀ c ∈ ((v, some v.len) :: calls).dropLast, Full c) ↔
      ∀ c ∈ calls.dropLast, Full c := by
    cases calls with
    | nil => simp
    | cons c calls => simp [Full]
  constructor
  · rintro ⟨hinit, hfull, hresult, herror⟩
    rw [hlen] at hresult herror
    rw [moved_cons, addrs_cons, List.prefix_append_right_inj] at hinit
    exact ⟨hinit, hstops.mp hfull, hresult, herror⟩
  · rintro ⟨hinit, hfull, hresult, herror⟩
    refine ⟨?_, hstops.mpr hfull, ?_, ?_⟩
    · rw [moved_cons, addrs_cons, List.prefix_append_right_inj]
      exact hinit
    · rw [hlen]
      exact hresult
    · rw [hlen]
      exact herror

/-- An error without a transfer of its own. -/
theorem contiguous_error {vs : List IOVec} {sofar : Nat} {r : Int} {calls : List (IOVec × Option Nat)}
    (hr : r < 0) (hmoved : moved calls = []) (hlast : calls.dropLast = []) :
    Contiguous vs sofar r calls ↔ sofar = 0 := by
  constructor
  · intro h
    have herror := h.error hr
    rw [hmoved] at herror
    exact herror
  · rintro rfl
    refine ⟨?_, ?_, ?_, ?_⟩
    · rw [hmoved]
      exact List.nil_prefix
    · rw [hlast]
      simp
    · exact fun h => absurd hr (not_lt.mpr h)
    · rw [hmoved]
      exact fun _ => rfl

/-- A call that has transferred less than it could. -/
theorem contiguous_short {v : IOVec} {l : List Elem} {sofar n : Nat} (hs : ∀ p ∈ l, Sane p)
    (hn : n < v.len) :
    Contiguous (v :: l.map Prod.fst) sofar (runFrom (sofar + n : Nat) l).1
        ((v, some n) :: (runFrom (sofar + n : Nat) l).2) ↔
      (∀ q ∈ l, q.1.len = 0) ∨ (n = 0 ∧ sofar = 0 ∧ Refuses l) := by
  have hinit : List.range' v.base n <+: addrs (v :: l.map Prod.fst) := by
    rw [addrs_cons]
    have hsplit : List.range' v.base v.len = List.range' v.base n ++
        List.range' (v.base + n) (v.len - n) := by
      rw [List.range'_append_1, Nat.add_sub_cancel' hn.le]
    rw [hsplit, List.append_assoc]
    exact List.prefix_append _ _
  have hone : moved [(v, some n)] = List.range' v.base n := by
    rw [moved_cons]
    exact List.append_nil _
  rcases runFrom_next hs (sofar + n : Nat) with ⟨hnil, heq⟩ | ⟨hnil, hrefuses, hlt, hcalls⟩ |
    ⟨hnil, hrefuses, hcalls⟩
  · rw [heq]
    refine iff_of_true ⟨?_, by simp, ?_, ?_⟩ (.inl hnil)
    · rw [hone]
      exact hinit
    · rw [hone, List.length_range']
      exact fun _ => rfl
    · intro h
      omega
  · rw [hcalls]
    simp only [hnil, hrefuses, false_or, and_true]
    constructor
    · intro h
      have herror := h.error hlt
      rw [hone, List.length_range'] at herror
      omega
    · rintro ⟨rfl, rfl⟩
      refine (contiguous_error hlt ?_ rfl).mpr rfl
      rw [hone]
      rfl
  · refine iff_of_false (fun h => ?_)
      (by simp only [hnil, hrefuses, and_false, or_false, not_false_eq_true])
    have hfull := h.stops (v, some n) (by
      rw [List.dropLast_cons_of_ne_nil hcalls]
      exact List.mem_cons_self)
    exact absurd (Option.some.inj hfull) hn.ne

theorem contiguous_iff {l : List Elem} (hs : ∀ p ∈ l, Sane p) (sofar : Nat) {clean : Prop}
    (hclean : clean ↔ sofar = 0) :
    Contiguous (l.map Prod.fst) sofar (runFrom sofar l).1 (runFrom sofar l).2 ↔
      StopsClean clean l := by
  induction l generalizing sofar clean with
  | nil =>
      exact iff_of_true ⟨List.nil_prefix, by simp [runFrom], fun _ => rfl, by simp [runFrom]⟩ trivial
  | cons p l ih =>
      obtain ⟨v, o⟩ := p
      have hp := hs (v, o) List.mem_cons_self
      have hl : ∀ q ∈ l, Sane q := fun q hq => hs q (List.mem_cons_of_mem _ hq)
      rw [List.map_cons]
      cases o with
      | empty =>
          have hzero : v.len = 0 := hp.empty.mp rfl
          have haddrs : addrs (v :: l.map Prod.fst) = addrs (l.map Prod.fst) := by
            rw [addrs_cons, hzero]
            rfl
          rw [runFrom_empty, StopsClean, ← ih hl sofar hclean]
          constructor
          · rintro ⟨hinit, hfull, hresult, herror⟩
            exact ⟨haddrs ▸ hinit, hfull, hresult, herror⟩
          · rintro ⟨hinit, hfull, hresult, herror⟩
            exact ⟨haddrs.symm ▸ hinit, hfull, hresult, herror⟩
      | refused r =>
          have hlt : ((Outcome.refused r).result v).1 < 0 := hp.refused r rfl
          rw [runFrom_error sofar l hlt, StopsClean, hclean]
          exact contiguous_error hlt rfl rfl
      | failed r =>
          have hlt : ((Outcome.failed r).result v).1 < 0 := hp.failed r rfl
          rw [runFrom_error sofar l hlt, StopsClean, hclean]
          exact contiguous_error hlt rfl rfl
      | moved n =>
          have hcast : (sofar : Int) + n = (sofar + n : Nat) := (Nat.cast_add _ _).symm
          rw [runFrom_moved, StopsClean, hcast]
          split
          · rename_i hn
            subst hn
            have hpos : 0 < v.len := by
              rcases Nat.eq_zero_or_pos v.len with hzero | hpos
              · cases hp.empty.mpr hzero
              · exact hpos
            dsimp only
            have hdone : False ↔ sofar + v.len = 0 := iff_of_false id (by omega)
            rw [contiguous_full, ih hl (sofar + v.len) hdone]
          · rename_i hn
            rw [contiguous_short hl (lt_of_le_of_ne (hp.moved n rfl) hn), hclean]

/-- The call gets to its loop. -/
structure Admitted (box : BoxRange.Box) (malloc : Bool) (iovp iovcnt : Nat) : Prop where
  iovcnt_le : iovcnt ≤ IOV_MAX_LFI
  bufcheck : box.bufcheck iovp (iovcnt * 16) 8 = true
  malloc : malloc = true

section

variable {op : Op} {box : BoxRange.Box} {fd : Int} {w : World φ} {malloc : Bool}
  {answers : Nat → Answer} {iovp iovcnt : Nat}

theorem oneTransfer_error (vs : List IOVec) {r : Int} (hr : r ≤ 0) : OneTransfer op vs w (r, w) := by
  refine ⟨[], (List.append_nil _).symm, rfl, List.nil_prefix, by simp, ?_, fun _ => rfl⟩
  exact fun h => le_antisymm hr h

theorem oneTransfer_vecFrom (l : List (IOVec × Answer)) :
    OneTransfer op (l.map Prod.fst) w (vecFrom op box fd 0 w l) ↔
      StopsClean True (outcomes op box fd w.sys l) := by
  obtain ⟨hres, hcalls, hdata⟩ :=
    @vecFrom_spec _ op box fd _ _ (Alike.refl w.sys) 0 l
  have hmap : l.map Prod.fst = (outcomes op box fd w.sys l).map Prod.fst := by
    rw [outcomes, List.map_map]
    rfl
  have hiff := contiguous_iff (sane_outcomes op box fd w.sys l) 0 (iff_of_true trivial rfl)
  rw [← hiff, hmap]
  constructor
  · rintro ⟨calls, hcalls', -, hcontiguous⟩
    rw [hcalls, List.append_cancel_left_eq] at hcalls'
    rw [hres, ← hcalls'] at hcontiguous
    exact hcontiguous
  · intro hcontiguous
    refine ⟨_, hcalls, hdata, ?_⟩
    rw [hres]
    exact hcontiguous

theorem oneTransfer_sysVec :
    OneTransfer op (iovs w.data.mem iovp iovcnt) w (sysVec op box fd w malloc answers iovp iovcnt) ↔
      (Admitted box malloc iovp iovcnt →
        StopsClean True (outcomes op box fd w.sys
          ((iovs w.data.mem iovp iovcnt).zip ((List.range iovcnt).map answers)))) := by
  have heinval : -LINUX_EINVAL ≤ 0 := by decide
  have henomem : -LINUX_ENOMEM ≤ 0 := by decide
  have hlen : (iovs w.data.mem iovp iovcnt).length = ((List.range iovcnt).map answers).length := by
    simp [iovs]
  have hmap : ((iovs w.data.mem iovp iovcnt).zip ((List.range iovcnt).map answers)).map Prod.fst =
      iovs w.data.mem iovp iovcnt := List.map_fst_zip hlen.le
  rw [sysVec]
  split_ifs with hcnt hzero hbuf hmalloc
  · exact iff_of_true (oneTransfer_error _ heinval) fun h => absurd h.iovcnt_le (not_le.mpr hcnt)
  · subst hzero
    exact iff_of_true (oneTransfer_error _ le_rfl) fun _ => trivial
  · refine iff_of_true (oneTransfer_error _ heinval) fun h => ?_
    rw [h.bufcheck] at hbuf
    cases hbuf
  · refine iff_of_true (oneTransfer_error _ henomem) fun h => ?_
    rw [h.malloc] at hmalloc
    cases hmalloc
  · have hadmitted : Admitted box malloc iovp iovcnt :=
      ⟨not_lt.mp hcnt, by simpa using hbuf, by simpa using hmalloc⟩
    have hiff := @oneTransfer_vecFrom _ op box fd w
      ((iovs w.data.mem iovp iovcnt).zip ((List.range iovcnt).map answers))
    rw [hmap] at hiff
    rw [hiff]
    exact ⟨fun h _ => h, fun h => h hadmitted⟩

end

/-- `sys_readv` and `sys_writev` make one transfer exactly if no element fails after bytes have
been transferred, and nothing follows one that is not transferred whole. -/
theorem vectored_oneTransfer_iff (box : BoxRange.Box) (fd : Int) (w : World φ) (malloc : Bool)
    (answers : Nat → Answer) (iovp iovcnt : Nat) :
    let vs := iovs w.data.mem iovp iovcnt
    let elems := vs.zip ((List.range iovcnt).map answers)
    (OneTransfer .read vs w (sysReadv box fd w malloc answers iovp iovcnt) ↔
        (Admitted box malloc iovp iovcnt → StopsClean True (outcomes .read box fd w.sys elems))) ∧
      (OneTransfer .write vs w (sysWritev box fd w malloc answers iovp iovcnt) ↔
        (Admitted box malloc iovp iovcnt → StopsClean True (outcomes .write box fd w.sys elems))) :=
  ⟨oneTransfer_sysVec, oneTransfer_sysVec⟩

/-- A process with one open file. -/
def oneFile : World Unit where
  sys :=
    { t := ⟨fun fd => if fd = 0 then 3 else -1, fun _ => none, fun _ => 0, false⟩
      host := Ledger.empty.issue 3 ()
      heap := .empty
      refs := fun _ => -1 }
  data := ⟨patch (fun _ => 0) 0 (leBytes 8 64 ++ leBytes 8 4 ++ leBytes 8 128 ++ leBytes 8 4),
    fun i => UInt8.ofNat i, 0⟩
  calls := []

def twoAnswers (first second : Except HostErrno Nat) (i : Nat) : Answer :=
  ⟨⟨some 4, true, none⟩, if i = 0 then first else second⟩

/-- After two bytes of the first buffer the second one is filled; and what the first one has got
is not reported when the second call fails. -/
theorem readv_not_oneTransfer :
    iovs oneFile.data.mem 0 2 = [⟨64, 4⟩, ⟨128, 4⟩] ∧
      (sysReadv ⟨0, 4096⟩ 0 oneFile true (twoAnswers (.ok 2) (.ok 4)) 0 2).1 = 6 ∧
      ¬OneTransfer .read (iovs oneFile.data.mem 0 2) oneFile
        (sysReadv ⟨0, 4096⟩ 0 oneFile true (twoAnswers (.ok 2) (.ok 4)) 0 2) ∧
      (sysWritev ⟨0, 4096⟩ 0 oneFile true (twoAnswers (.ok 4) (.error .EAGAIN)) 0 2).1 = -11 ∧
      ¬OneTransfer .write (iovs oneFile.data.mem 0 2) oneFile
        (sysWritev ⟨0, 4096⟩ 0 oneFile true (twoAnswers (.ok 4) (.error .EAGAIN)) 0 2) := by
  have hadmitted : Admitted ⟨0, 4096⟩ true 0 2 := ⟨by decide, by decide, rfl⟩
  have hread : outcomes .read ⟨0, 4096⟩ 0 oneFile.sys ((iovs oneFile.data.mem 0 2).zip
      ((List.range 2).map (twoAnswers (.ok 2) (.ok 4)))) =
        [(⟨64, 4⟩, .moved 2), (⟨128, 4⟩, .moved 4)] := by decide
  have hwrite : outcomes .write ⟨0, 4096⟩ 0 oneFile.sys ((iovs oneFile.data.mem 0 2).zip
      ((List.range 2).map (twoAnswers (.ok 4) (.error .EAGAIN)))) =
        [(⟨64, 4⟩, .moved 4), (⟨128, 4⟩, .failed (-11))] := by decide
  refine ⟨by decide, by decide, fun h => ?_, by decide, fun h => ?_⟩
  · have hclean := oneTransfer_sysVec.mp h hadmitted
    rw [hread] at hclean
    simp [StopsClean] at hclean
  · have hclean := oneTransfer_sysVec.mp h hadmitted
    rw [hwrite] at hclean
    simp [StopsClean] at hclean

end LfiRuntime.Vectored
