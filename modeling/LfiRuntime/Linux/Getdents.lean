import Mathlib.Tactic
import LfiRuntime.Lib.Bytes
import LfiRuntime.Linux.Align
import LfiRuntime.Linux.Vectored

/-!
`sys_getdents64` where the host has no `getdents64`: every call opens the directory
anew at the position of the descriptor, and moves that position with `readdir`.
-/

namespace LfiRuntime.Getdents

open LfiRuntime.Align
open LfiRuntime.ByteString
open LfiRuntime.PagedMemory
open LfiRuntime.Vectored

/-- An entry as `readdir` gives it. Its name is a string of C. -/
structure HostDirent where
  ino : BitVec 64
  type : UInt8
  name : Bytes
  noZero : 0 ∉ name

def LINUX_EBADF : Int := 9
def LINUX_EINVAL : Int := 22

/-- `sizeof(d_name) - 1` and `offsetof(struct Dirent, d_name)`. -/
def namemax : Nat := 255

def nameOffset : Nat := 19

namespace HostDirent

variable (e : HostDirent)

/-- `strnlen(ent->d_name, namemax)`. -/
def namelen : Nat := min e.name.length namemax

def reclen : Nat := ceilp (nameOffset + e.namelen + 1) 8

/-- The bytes of the `struct Dirent` after the `memset` and the stores. -/
def record : Bytes :=
  leBytes 8 e.ino.toNat ++ leBytes 8 (2 ^ 64 - 1) ++ leBytes 2 e.reclen ++ [e.type] ++
    e.name.take e.namelen ++ List.replicate (e.reclen - (nameOffset + e.namelen)) 0

end HostDirent

/-- What a call returns, the bytes that it has written at `dirp`, and the entries that
the position of the descriptor is in front of then. -/
structure Reply where
  ret : Int
  bytes : Bytes
  rest : List HostDirent

/-- The loop of `host_getdents64`; `written` is the length of `out`. -/
def readLoop (count : Nat) : List HostDirent → Bytes → Reply
  | [], out => ⟨out.length, out, []⟩
  | e :: es, out =>
    if count - out.length < e.reclen then
      ⟨if out.length = 0 then hostErr .EINVAL else out.length, out, es⟩
    else readLoop count es (out ++ e.record)

/-- `fault` is the error of `dup` or `fdopendir`, where one of them fails. -/
def hostGetdents64 (count : Nat) (fault : Option HostErrno) (rest : List HostDirent) : Reply :=
  match fault with
  | some err => ⟨hostErr err, [], rest⟩
  | none => readLoop count rest []

structure Call where
  dirp : Nat
  count : Nat
  fault : Option HostErrno

/-- `kfd` is the host descriptor that the descriptor of the call has, or -1. -/
def sysGetdents64 (box : BoxRange.Box) (kfd : Int) (rest : List HostDirent) (c : Call) : Reply :=
  if kfd = -1 then ⟨-LINUX_EBADF, [], rest⟩
  else
    match box.bufhost c.dirp c.count 8 with
    | none => ⟨-LINUX_EINVAL, [], rest⟩
    | some _ => hostGetdents64 c.count c.fault rest

/-! What the caller reads. -/

/-- A `struct Dirent`, up to the zero behind its name. -/
structure Dirent where
  ino : BitVec 64
  off : BitVec 64
  reclen : Nat
  type : UInt8
  name : Bytes
deriving DecidableEq, Repr

def Dirent.read (bs : Bytes) : Dirent :=
  ⟨BitVec.ofNat 64 (field bs 0 8), BitVec.ofNat 64 (field bs 8 8), field bs 16 2, bs.getD 18 0,
    cString (bs.drop nameOffset)⟩

/-- The records from the start of the bytes on, each where the `d_reclen` of the one
before says. -/
def walk : Nat → Bytes → List Dirent
  | 0, _ => []
  | n + 1, bs =>
    if bs = [] then [] else Dirent.read bs :: walk n (bs.drop (Dirent.read bs).reclen)

def Reply.dirents (r : Reply) : List Dirent := walk r.bytes.length r.bytes

/-- A call with the entries that the position was in front of, and its reply. -/
structure Exchange where
  before : List HostDirent
  call : Call
  reply : Reply

/-- Calls on one descriptor, one after the other. -/
def session (box : BoxRange.Box) (kfd : Int) : List HostDirent → List Call → List Exchange
  | _, [] => []
  | rest, c :: cs =>
    ⟨rest, c, sysGetdents64 box kfd rest c⟩ ::
      session box kfd (sysGetdents64 box kfd rest c).rest cs

/-- The last call returns 0, and no other does. -/
def Ends : List Exchange → Prop
  | [] => False
  | [x] => x.reply.ret = 0
  | x :: xs => x.reply.ret ≠ 0 ∧ Ends xs

instance Ends.decidable : (xs : List Exchange) → Decidable (Ends xs)
  | [] => inferInstanceAs (Decidable False)
  | [x] => inferInstanceAs (Decidable (x.reply.ret = 0))
  | x :: y :: xs =>
    haveI := Ends.decidable (y :: xs)
    inferInstanceAs (Decidable (x.reply.ret ≠ 0 ∧ Ends (y :: xs)))

/-- The call reads the directory. -/
def Tried (box : BoxRange.Box) (c : Call) : Prop :=
  box.bufhost c.dirp c.count 8 ≠ none ∧ c.fault = none

/-- The bytes of the records of the entries. -/
def size (es : List HostDirent) : Nat := (es.map HostDirent.reclen).sum

/-- The first call that reads the directory has room for all of it. -/
def Roomy (box : BoxRange.Box) (dir : List HostDirent) : List Call → Prop
  | [] => True
  | c :: cs => (Tried box c → size dir ≤ c.count) ∧ (¬Tried box c → Roomy box dir cs)

/-- The buffer has no room for the next entry. -/
def TooSmall (box : BoxRange.Box) (x : Exchange) : Prop :=
  Tried box x.call ∧ ∃ e ∈ x.before.head?, x.call.count < e.reclen

/-- Reading the directory loses and repeats nothing. -/
structure Complete (box : BoxRange.Box) (dir : List HostDirent) (xs : List Exchange) : Prop where
  entries : (xs.flatMap fun x => x.reply.dirents.map fun d => (d.ino, d.type, d.name)) =
    dir.map fun e => (e.ino, e.type, e.name)
  chained : ∀ x ∈ xs, 0 < x.reply.ret → x.reply.bytes.length = x.reply.ret ∧
    (x.reply.dirents.map Dirent.reclen).sum = x.reply.bytes.length ∧
    ∀ d ∈ x.reply.dirents, 8 ∣ d.reclen
  kept : ∀ x ∈ xs, TooSmall box x →
    x.reply.ret = -LINUX_EINVAL ∧ x.reply.bytes = [] ∧ x.reply.rest = x.before

variable {box : BoxRange.Box} {kfd : Int} {dir rest es : List HostDirent} {e : HostDirent}
  {c : Call} {cs : List Call}

/-! Records. -/

theorem isAlign_eight : IsAlign 8 := ⟨3, by decide, rfl⟩

theorem namelen_le (e : HostDirent) : e.namelen ≤ 255 := min_le_right _ _

theorem reclen_eq (e : HostDirent) : e.reclen = (nameOffset + e.namelen + 8) / 8 * 8 := by
  have hle := namelen_le e
  rw [HostDirent.reclen, ceilp_of_lt isAlign_eight (by rw [nameOffset]; omega)]
  rfl

theorem dvd_reclen (e : HostDirent) : 8 ∣ e.reclen := by
  rw [reclen_eq]
  exact Nat.dvd_mul_left _ _

/-- A record has room for its name and the zero behind it, and a length of 16 bits. -/
theorem reclen_bounds (e : HostDirent) :
    nameOffset + e.namelen < e.reclen ∧ e.reclen < 2 ^ 16 := by
  have hle := namelen_le e
  rw [reclen_eq, nameOffset]
  omega

theorem reclen_pos (e : HostDirent) : 0 < e.reclen := (Nat.zero_le _).trans_lt (reclen_bounds e).1

theorem length_record (e : HostDirent) : e.record.length = e.reclen := by
  have hroom := (reclen_bounds e).1
  have hname : (e.name.take e.namelen).length = e.namelen := by
    rw [List.length_take]
    exact min_eq_left (min_le_left _ _)
  rw [nameOffset] at hroom
  simp only [HostDirent.record, List.length_append, length_leBytes, List.length_singleton, hname,
    List.length_replicate, nameOffset]
  omega

/-- What a record says of its entry. -/
def HostDirent.dirent (e : HostDirent) : Dirent :=
  ⟨e.ino, BitVec.ofNat 64 (2 ^ 64 - 1), e.reclen, e.type, e.name.take e.namelen⟩

theorem read_append {ino off len : Bytes} (hino : ino.length = 8) (hoff : off.length = 8)
    (hlen : len.length = 2) (type : UInt8) (tail : Bytes) :
    Dirent.read (ino ++ (off ++ (len ++ type :: tail))) =
      ⟨BitVec.ofNat 64 (ofBytes ino), BitVec.ofNat 64 (ofBytes off), ofBytes len, type,
        cString tail⟩ := by
  have hfirst := field_append_left ino (off ++ (len ++ type :: tail))
  have hsecond := (field_append_right ino (off ++ (len ++ type :: tail)) 0 8).trans
    (hoff ▸ field_append_left off (len ++ type :: tail))
  have hthird := (field_append_right ino (off ++ (len ++ type :: tail)) 8 2).trans
    ((hoff ▸ field_append_right off (len ++ type :: tail) 0 2).trans
      (hlen ▸ field_append_left len (type :: tail)))
  rw [hino] at hfirst hsecond hthird
  rw [Dirent.read, hfirst, hsecond, hthird]
  have hdrop : (ino ++ (off ++ (len ++ type :: tail))).drop 18 = type :: tail := by
    rw [show 18 = ino.length + (off.length + len.length) by rw [hino, hoff, hlen],
      ← List.drop_drop, List.drop_left, ← List.drop_drop, List.drop_left, List.drop_left]
  have htype : (ino ++ (off ++ (len ++ type :: tail))).getD 18 0 = type := by
    rw [List.getD_eq_getElem?_getD, ← List.head?_drop, hdrop]
    rfl
  rw [htype, nameOffset, show 19 = 18 + 1 from rfl, ← List.drop_drop, hdrop]
  rfl

theorem read_record (e : HostDirent) (tail : Bytes) :
    Dirent.read (e.record ++ tail) = e.dirent := by
  obtain ⟨hroom, hlt⟩ := reclen_bounds e
  obtain ⟨pad, hpad⟩ := Nat.exists_eq_add_of_lt hroom
  have hzeros : e.reclen - (nameOffset + e.namelen) = pad + 1 := by omega
  have hname : 0 ∉ e.name.take e.namelen := fun h => e.noZero (List.mem_of_mem_take h)
  have hrecord : e.record ++ tail = leBytes 8 e.ino.toNat ++ (leBytes 8 (2 ^ 64 - 1) ++
      (leBytes 2 e.reclen ++ e.type :: (e.name.take e.namelen ++
        0 :: (List.replicate pad 0 ++ tail)))) := by
    simp only [HostDirent.record, hzeros, List.replicate_succ, List.append_assoc, List.cons_append,
      List.nil_append]
  rw [hrecord, read_append (length_leBytes _ _) (length_leBytes _ _) (length_leBytes _ _),
    cString_append hname, ofNat_ofBytes_leBytes, ofBytes_leBytes, ofBytes_leBytes,
    Nat.mod_eq_of_lt (show e.reclen < 256 ^ 2 from hlt)]
  rfl

/-- The reader finds the records one behind the other. -/
theorem walk_records (es : List HostDirent) {n : Nat} (hn : es.length ≤ n) :
    walk n (es.flatMap HostDirent.record) = es.map HostDirent.dirent := by
  induction es generalizing n with
  | nil => cases n <;> rfl
  | cons e es ih =>
      obtain ⟨n, rfl⟩ := Nat.exists_eq_add_of_lt (Nat.zero_lt_of_lt (Nat.lt_of_succ_le hn))
      rw [Nat.zero_add, List.length_cons] at hn
      have hne : e.record ++ es.flatMap HostDirent.record ≠ [] := fun h => by
        have hlen := congrArg List.length (List.append_eq_nil_iff.mp h).1
        rw [length_record] at hlen
        exact (reclen_pos e).ne' hlen
      rw [Nat.zero_add, List.flatMap_cons, walk, if_neg hne, read_record, List.map_cons]
      have hdrop : (e.record ++ es.flatMap HostDirent.record).drop e.dirent.reclen =
          es.flatMap HostDirent.record := List.drop_left' (length_record e)
      rw [hdrop, ih (Nat.le_of_succ_le_succ hn)]

theorem length_records (es : List HostDirent) :
    (es.flatMap HostDirent.record).length = size es := by
  rw [List.length_flatMap, size]
  exact congrArg List.sum (List.map_congr_left fun e _ => length_record e)

theorem length_le_size (es : List HostDirent) : es.length ≤ size es := by
  induction es with
  | nil => exact le_rfl
  | cons e es ih =>
      have hpos := reclen_pos e
      rw [size] at ih ⊢
      rw [List.length_cons, List.map_cons, List.sum_cons]
      omega

theorem size_cons (e : HostDirent) (es : List HostDirent) :
    size (e :: es) = e.reclen + size es := rfl

theorem size_append (es fs : List HostDirent) : size (es ++ fs) = size es + size fs := by
  rw [size, List.map_append, List.sum_append, size, size]

/-! Calls. -/

/-- How a call ends. -/
inductive Outcome (box : BoxRange.Box) (rest : List HostDirent) (c : Call) : Reply → Prop
  /-- It fails before it reads. -/
  | refused {ret : Int} (hnot : ¬Tried box c) (hneg : ret < 0) : Outcome box rest c ⟨ret, [], rest⟩
  /-- It reads to the end of the directory. -/
  | all (htried : Tried box c) (hroom : size rest ≤ c.count) :
      Outcome box rest c ⟨size rest, rest.flatMap HostDirent.record, []⟩
  /-- It has read an entry that there is no room for. -/
  | short {done es : List HostDirent} {e : HostDirent} (htried : Tried box c)
      (hrest : rest = done ++ e :: es) (hfull : c.count < size done + e.reclen) :
      Outcome box rest c
        ⟨if done = [] then -LINUX_EINVAL else size done, done.flatMap HostDirent.record, es⟩

theorem readLoop_outcome (htried : Tried box c) (done : List HostDirent)
    (hdone : size done ≤ c.count) :
    Outcome box (done ++ rest) c (readLoop c.count rest (done.flatMap HostDirent.record)) := by
  induction rest generalizing done with
  | nil =>
      rw [readLoop, length_records, List.append_nil]
      exact .all htried hdone
  | cons e es ih =>
      rw [readLoop, length_records]
      split
      · rename_i hfull
        have hzero : size done = 0 ↔ done = [] := by
          constructor
          · intro h
            exact List.length_eq_zero_iff.mp (Nat.le_zero.mp (h ▸ length_le_size done))
          · rintro rfl
            rfl
        have hret : (if size done = 0 then hostErr .EINVAL else (size done : Int)) =
            if done = [] then -LINUX_EINVAL else (size done : Int) := by
          simp only [hzero]
          rfl
        rw [hret]
        exact .short htried rfl (by omega)
      · rename_i hroom
        have hnext := ih (done ++ [e]) (by
          rw [size_append]
          simp only [size, List.map_cons, List.map_nil, List.sum_cons, List.sum_nil] at hdone hroom ⊢
          omega)
        rwa [List.append_assoc, List.singleton_append, List.flatMap_append, List.flatMap_singleton]
          at hnext

theorem hostErr_neg (err : HostErrno) : hostErr err < 0 := by
  cases err <;> decide

theorem sysGetdents64_outcome (hkfd : kfd ≠ -1) (rest : List HostDirent) (c : Call) :
    Outcome box rest c (sysGetdents64 box kfd rest c) := by
  rw [sysGetdents64, if_neg hkfd]
  cases hbuf : box.bufhost c.dirp c.count 8 with
  | none => exact .refused (fun h => h.1 hbuf) (by decide)
  | some buf =>
      simp only [hostGetdents64]
      cases hfault : c.fault with
      | none =>
          have htried : Tried box c := ⟨by rw [hbuf]; exact Option.some_ne_none _, hfault⟩
          exact readLoop_outcome htried [] (Nat.zero_le _)
      | some err =>
          exact .refused (fun h => Option.some_ne_none err (hfault.symm.trans h.2)) (hostErr_neg err)

theorem Outcome.dirents {r : Reply} (h : Outcome box rest c r) :
    ∃ done, r.bytes = done.flatMap HostDirent.record ∧ r.dirents = done.map HostDirent.dirent ∧
      (r.ret = size done ∨ done = [] ∧ r.ret < 0) := by
  have hread : ∀ done : List HostDirent, ∀ ret es,
      (Reply.mk ret (done.flatMap HostDirent.record) es).dirents = done.map HostDirent.dirent := by
    intro done ret es
    exact walk_records done ((length_le_size done).trans (length_records done).ge)
  rcases h with ⟨-, hneg⟩ | ⟨-, -⟩ | ⟨-, -, -⟩
  · exact ⟨[], rfl, rfl, .inr ⟨rfl, hneg⟩⟩
  · exact ⟨rest, rfl, hread rest _ _, .inl rfl⟩
  · rename_i done es e
    refine ⟨done, rfl, hread done _ _, ?_⟩
    rcases eq_or_ne done [] with rfl | hne
    · exact .inr ⟨rfl, by simp [LINUX_EINVAL]⟩
    · exact .inl (if_neg hne)

/-- A tried call either reads all entries or loses one. -/
theorem Outcome.of_tried {r : Reply} (h : Outcome box rest c r) (htried : Tried box c) :
    size rest ≤ c.count ∧ r.dirents = rest.map HostDirent.dirent ∧ r.rest = [] ∨
      c.count < size rest ∧ r.ret ≠ 0 ∧ ∃ done e, rest = done ++ e :: r.rest ∧
        r.dirents = done.map HostDirent.dirent := by
  rcases h with ⟨hnot, -⟩ | ⟨-, hroom⟩ | ⟨-, hrest, hfull⟩
  · exact absurd htried hnot
  · exact .inl ⟨hroom,
      walk_records rest ((length_le_size rest).trans (length_records rest).ge), rfl⟩
  · rename_i done es e
    refine .inr ⟨?_, ?_, done, e, hrest,
      walk_records done ((length_le_size done).trans (length_records done).ge)⟩
    · rw [hrest, size_append, size_cons]
      omega
    · rcases done with - | ⟨d, done⟩
      · simp [LINUX_EINVAL]
      · have hpos := reclen_pos d
        simp only [reduceCtorEq, if_false, size_cons]
        omega

theorem Outcome.of_not_tried {r : Reply} (h : Outcome box rest c r) (hnot : ¬Tried box c) :
    r.ret < 0 ∧ r.dirents = [] ∧ r.rest = rest := by
  rcases h with ⟨-, hneg⟩ | ⟨htried, -⟩ | ⟨htried, -, -⟩
  · exact ⟨hneg, rfl, rfl⟩
  · exact absurd htried hnot
  · exact absurd htried hnot

/-! Sessions. -/

theorem session_outcome (hkfd : kfd ≠ -1) {x : Exchange} (hx : x ∈ session box kfd rest cs) :
    Outcome box x.before x.call x.reply := by
  induction cs generalizing rest with
  | nil => exact absurd hx List.not_mem_nil
  | cons c cs ih =>
      rcases List.mem_cons.mp hx with rfl | hlater
      · exact sysGetdents64_outcome hkfd rest c
      · exact ih hlater

/-- A session that ends is on a descriptor that has a host descriptor. -/
theorem kfd_ne_of_ends (hends : Ends (session box kfd rest cs)) : kfd ≠ -1 := by
  induction cs generalizing rest with
  | nil => exact hends.elim
  | cons c cs ih =>
      rcases cs with - | ⟨c', cs⟩
      · rintro rfl
        exact absurd (show -LINUX_EBADF = 0 from hends) (by decide)
      · exact ih hends.2

theorem roomy_nil (box : BoxRange.Box) (cs : List Call) : Roomy box [] cs := by
  induction cs with
  | nil => trivial
  | cons c cs ih => exact ⟨fun _ => Nat.zero_le _, fun _ => ih⟩

/-- The entries that a session delivers are entries of the directory in its order, and are
all of them exactly if the first call that reads has room for all. -/
theorem session_entries (hends : Ends (session box kfd rest cs)) :
    ∃ done, done.Sublist rest ∧
      (session box kfd rest cs).flatMap (fun x => x.reply.dirents) = done.map HostDirent.dirent ∧
      (done = rest ↔ Roomy box rest cs) := by
  have hkfd := kfd_ne_of_ends hends
  induction cs generalizing rest with
  | nil => exact hends.elim
  | cons c cs ih =>
      have hcall : Outcome box rest c (sysGetdents64 box kfd rest c) :=
        sysGetdents64_outcome hkfd rest c
      have hnext : (sysGetdents64 box kfd rest c).ret ≠ 0 →
          Ends (session box kfd (sysGetdents64 box kfd rest c).rest cs) := by
        rcases cs with - | ⟨c', cs⟩
        · exact fun hne => absurd hends hne
        · exact fun _ => hends.2
      rw [session, List.flatMap_cons]
      by_cases htried : Tried box c
      · rcases hcall.of_tried htried with ⟨hroom, hread, hrest⟩ | ⟨hfull, hne, done, e, hrest, hread⟩
        · refine ⟨rest, List.Sublist.refl rest, ?_,
            iff_of_true rfl ⟨fun _ => hroom, fun hnot => absurd htried hnot⟩⟩
          have hlater : (session box kfd [] cs).flatMap (fun x => x.reply.dirents) = [] := by
            rcases cs with - | ⟨c', cs⟩
            · rfl
            · obtain ⟨done, hsub, hdone, -⟩ := ih (hrest ▸ hends.2)
              rw [hdone, List.sublist_nil.mp hsub, List.map_nil]
          rw [hread, hrest, hlater, List.append_nil]
        · obtain ⟨later, hsub, hlater, -⟩ := ih (hnext hne)
          have hlost : (done ++ later).length < rest.length := by
            have hlen := congrArg List.length hrest
            have hle := hsub.length_le
            rw [List.length_append, List.length_cons] at hlen
            rw [List.length_append]
            omega
          refine ⟨done ++ later, ?_, ?_, iff_of_false (fun h => ?_) (fun h => ?_)⟩
          · rw [hrest]
            exact (List.Sublist.refl done).append (hsub.cons e)
          · rw [hread, hlater, List.map_append]
          · exact hlost.ne (congrArg List.length h)
          · exact absurd (h.1 htried) (Nat.not_le.mpr hfull)
      · obtain ⟨hneg, hnone, hrest⟩ := hcall.of_not_tried htried
        rw [hrest] at hnext ⊢
        obtain ⟨done, hsub, hdone, hiff⟩ := ih (hnext hneg.ne)
        refine ⟨done, hsub, ?_, hiff.trans ?_⟩
        · rw [hnone, hdone, List.nil_append]
        · exact ⟨fun h => ⟨fun ht => absurd ht htried, fun _ => h⟩, fun h => h.2 htried⟩

theorem fits_of_roomy (hkfd : kfd ≠ -1) (hroomy : Roomy box rest cs) {x : Exchange}
    (hx : x ∈ session box kfd rest cs) (htried : Tried box x.call) :
    size x.before ≤ x.call.count := by
  induction cs generalizing rest with
  | nil => exact absurd hx List.not_mem_nil
  | cons c cs ih =>
      rcases List.mem_cons.mp hx with rfl | hlater
      · exact hroomy.1 htried
      · refine ih ?_ hlater
        have hcall : Outcome box rest c (sysGetdents64 box kfd rest c) :=
          sysGetdents64_outcome hkfd rest c
        by_cases hread : Tried box c
        · rcases hcall.of_tried hread with ⟨-, -, hrest⟩ | ⟨hfull, -⟩
          · rw [hrest]
            exact roomy_nil box cs
          · exact absurd (hroomy.1 hread) (Nat.not_le.mpr hfull)
        · rw [(hcall.of_not_tried hread).2.2]
          exact hroomy.2 hread

theorem take_namelen (e : HostDirent) :
    e.name.take e.namelen = e.name ↔ e.name.length ≤ namemax := by
  rw [List.take_eq_self_iff, HostDirent.namelen]
  omega

theorem complete_iff (hends : Ends (session box kfd dir cs)) :
    Complete box dir (session box kfd dir cs) ↔
      Roomy box dir cs ∧ ∀ e ∈ dir, e.name.length ≤ namemax := by
  have hkfd := kfd_ne_of_ends hends
  obtain ⟨done, hsub, hread, hiff⟩ := session_entries hends
  have hentries : ((session box kfd dir cs).flatMap fun x =>
      x.reply.dirents.map fun d => (d.ino, d.type, d.name)) =
      done.map fun e => (e.ino, e.type, e.name.take e.namelen) := by
    rw [← List.map_flatMap, hread, List.map_map]
    rfl
  constructor
  · intro h
    have hall : done.map (fun e => (e.ino, e.type, e.name.take e.namelen)) =
        dir.map fun e => (e.ino, e.type, e.name) := hentries.symm.trans h.entries
    have hdone : done = dir := hsub.eq_of_length (by
      have hlen := congrArg List.length hall
      rwa [List.length_map, List.length_map] at hlen)
    refine ⟨hiff.mp hdone, fun e he => ?_⟩
    rw [hdone] at hall
    have hname := List.map_inj_left.mp hall e he
    exact (take_namelen e).mp (congrArg (fun t => t.2.2) hname)
  · rintro ⟨hroomy, hnames⟩
    refine ⟨?_, fun x hx hpos => ?_, fun x hx htoo => ?_⟩
    · rw [hentries, hiff.mpr hroomy]
      exact List.map_congr_left fun e he => by rw [(take_namelen e).mpr (hnames e he)]
    · obtain ⟨es, hbytes, hdirents, hret⟩ := (session_outcome hkfd hx).dirents
      have hlen : x.reply.bytes.length = size es := by rw [hbytes, length_records]
      have hsize : x.reply.ret = size es :=
        hret.resolve_right fun hneg => absurd hpos (not_lt.mpr hneg.2.le)
      refine ⟨by rw [hlen, hsize], ?_, fun d hd => ?_⟩
      · rw [hlen, hdirents, List.map_map]
        rfl
      · rw [hdirents] at hd
        obtain ⟨e, -, rfl⟩ := List.mem_map.mp hd
        exact dvd_reclen e
    · obtain ⟨htried, e, he, hsmall⟩ := htoo
      have hfits := fits_of_roomy hkfd hroomy hx htried
      obtain ⟨es, hbefore⟩ := List.head?_eq_some_iff.mp he
      rw [hbefore, size_cons] at hfits
      omega

def sampleBox : BoxRange.Box := ⟨0x10000, 0x20000⟩

/-- Two entries, each with a record of 24 bytes. -/
def sampleDir : List HostDirent := [⟨1, 4, [97], by decide⟩, ⟨2, 8, [98], by decide⟩]

theorem complete_sample :
    Ends (session sampleBox 3 sampleDir [⟨0x10000, 48, none⟩, ⟨0x10000, 48, none⟩]) ∧
    (Complete sampleBox sampleDir
        (session sampleBox 3 sampleDir [⟨0x10000, 48, none⟩, ⟨0x10000, 48, none⟩]) ↔
      Roomy sampleBox sampleDir [⟨0x10000, 48, none⟩, ⟨0x10000, 48, none⟩] ∧
        ∀ e ∈ sampleDir, e.name.length ≤ namemax) :=
  have hends : Ends (session sampleBox 3 sampleDir [⟨0x10000, 48, none⟩, ⟨0x10000, 48, none⟩]) :=
    by decide
  ⟨hends, complete_iff hends⟩

/-- The first call has room for one entry and has read both, the second finds none. -/
theorem not_complete_sample :
    Ends (session sampleBox 3 sampleDir [⟨0x10000, 24, none⟩, ⟨0x10000, 24, none⟩]) ∧
    ((session sampleBox 3 sampleDir [⟨0x10000, 24, none⟩, ⟨0x10000, 24, none⟩]).flatMap
      fun x => x.reply.dirents.map Dirent.name) = [[97]] ∧
    ¬Complete sampleBox sampleDir
      (session sampleBox 3 sampleDir [⟨0x10000, 24, none⟩, ⟨0x10000, 24, none⟩]) := by
  refine ⟨by decide, by decide, fun h => ?_⟩
  exact absurd h.entries (by decide)

end LfiRuntime.Getdents
