import Mathlib.Data.Fin.Basic
import LfiRuntime.Lib.MemoryWords
import LfiRuntime.Box.Box

/-!
`callback.c` of x64 and of arm64: the callback slots of a box, with the entries
through which the sandbox reaches them.
-/

namespace LfiRuntime.Callbacks

open LfiRuntime.Box
open LfiRuntime.Config
open LfiRuntime.HostCalls
open LfiRuntime.PagedMemory

def MAXCALLBACKS : Nat := 4096

instance : NeZero MAXCALLBACKS := ⟨by decide⟩

abbrev Slot := Fin MAXCALLBACKS

/-- The two trampolines, `lfi_callback` and `lfi_callback_struct`. -/
inductive Trampoline
  | lfiCallback
  | lfiCallbackStruct
deriving DecidableEq, Repr

/-- `cbentry_code` of x64. -/
def cbentryCode : List UInt8 :=
  [0x4c, 0x8b, 0x15, 0x09, 0x00, 0x00, 0x00,  -- mov 0x9(%rip), %r10
   0xff, 0x25, 0x0b, 0x00, 0x00, 0x00,        -- jmp *0xb(%rip)
   0x0f, 0x1f, 0x00]                          -- nop

/-- `ldr reg, .+lit`. -/
def LDRLIT (reg lit : Nat) : Nat := 0b01011000 <<< 24 ||| (lit >>> 2) <<< 5 ||| reg

/-- `cbtrampoline` of arm64. -/
def cbtrampoline : List UInt8 :=
  leBytes 4 (LDRLIT 27 (MAXCALLBACKS * 16)) ++ leBytes 4 (LDRLIT 28 (4 + MAXCALLBACKS * 16)) ++
    leBytes 4 0xd61f0380 ++ leBytes 4 0xd503201f

/-! What the processor does with an entry: the word that it loads as the target, and
the word that it jumps to. -/

/-- A signed 32-bit displacement. -/
def disp32 (bytes : List UInt8) : Int := (BitVec.ofNat 32 (ofBytes bytes)).toInt

/-- A `mov` from memory to `%r10` and a jump through memory. -/
def branchX64 (ps : Nat) (m : Memory) (a : Nat) : Option (BitVec 64 × BitVec 64) :=
  let bytes := m.readRange ps a 13
  if bytes.take 3 = [0x4c, 0x8b, 0x15] ∧ (bytes.drop 7).take 2 = [0xff, 0x25] then
    some (m.load64 ps (↑(a + 7) + disp32 ((bytes.drop 3).take 4)).toNat,
      m.load64 ps (↑(a + 13) + disp32 (bytes.drop 9)).toNat)
  else none

/-- The register of an `ldr` from a literal, with the offset of the literal. -/
def ldrLiteral (w : Nat) : Option (Nat × Int) :=
  if w / 2 ^ 24 = 0x58 then some (w % 32, 4 * (BitVec.ofNat 19 (w / 32)).toInt) else none

/-- The register of a `br`. -/
def brRegister (w : Nat) : Option Nat :=
  if w / 2 ^ 10 = 0xd61f0000 / 2 ^ 10 ∧ w % 32 = 0 then some (w / 32 % 32) else none

/-- Two loads, of the target to `x27`, and a jump to the other. -/
def branchArm64 (ps : Nat) (m : Memory) (a : Nat) : Option (BitVec 64 × BitVec 64) :=
  let word := fun k => ofBytes (m.readRange ps (a + k) 4)
  match ldrLiteral (word 0), ldrLiteral (word 4), brRegister (word 8) with
  | some (27, off), some (reg, off'), some reg' =>
    if reg = reg' then
      some (m.load64 ps (↑a + off).toNat, m.load64 ps (↑(a + 4) + off').toNat)
    else none
  | _, _, _ => none

/-- The entry at `a`, as sandbox code that has got there runs it. -/
def branch (e : Engine) (m : Memory) (a : Nat) : Option (BitVec 64 × BitVec 64) :=
  if e.target = arm64 then branchArm64 e.opts.pagesize m a else branchX64 e.opts.pagesize m a

/-- `cbentries_alias` or `dataentries_alias`; `cbentries_box` or `cbentries`; and
`dataentries_box`. -/
structure CallbackInfo where
  aliasmap : Nat
  entries : Nat
  data : Nat

/-- The parts of a box that the callbacks need. -/
structure State where
  box : LFIBox
  host : Host
  cbinfo : CallbackInfo
  callbacks : Slot → BitVec 64

/-- The answers of the host during `init_cb`, call by call: those inside
`box_mapany_locked`, `box_mprotect_locked`, `box_mapat_locked` and
`box_munmap_locked` are lists. -/
structure Answers where
  memfd : Option Int
  ftruncate : Bool
  aliasmap : Option Nat
  entries : List Outcome
  protect : List Outcome
  data : List Outcome
  undo : List Outcome
  munmap : List Outcome

def setOutcomes (h : Host) (outcomes : List Outcome) : Host := { h with outcomes := outcomes }

/-- `memfdcreate` and `ftruncate`: a file of zeroes. -/
def newFile (m : Memory) (fd : Int) : Memory :=
  { m with files := Function.update m.files fd fun _ => 0 }

/-- The loop that fills in the code of each entry. -/
def fillCode (ps : Nat) (m : Memory) (base size : Nat) (code : List UInt8) : Memory :=
  (List.finRange MAXCALLBACKS).foldl
    (fun m (i : Slot) => m.writeBytes ps (base + size * i) code) m

/-- `init_cb` of x64. -/
def initCbX64 (e : Engine) (s : State) (a : Answers) : Bool × State :=
  let ps := e.opts.pagesize
  match a.memfd with
  | none => (false, s)
  | some fd =>
    let size := MAXCALLBACKS * 32
    let s := { s with host.mem := newFile s.host.mem fd }
    if !a.ftruncate then (false, s)
    else
      match a.aliasmap with
      | none => (false, s)
      | some aliasmap =>
        let mem := s.host.mem.mmapFixed ps aliasmap size Prot.readWrite (.sharedFile fd 0)
        let mem := fillCode ps mem aliasmap 32 cbentryCode
        let h := setOutcomes { s.host with mem := mem } a.entries
        match boxMapanyLocked e s.box h size (LFI_PROT_READ ||| LFI_PROT_EXEC) LFI_MAP_SHARED fd 0
            true with
        | (none, box, h) =>
          let h := (munmap ps (setOutcomes h a.munmap) aliasmap size).2
          (false, { s with box := box, host := h, cbinfo.aliasmap := 0 })
        | (some boxmap, box, h) =>
          (true, { s with box := box, host := h, cbinfo := ⟨aliasmap, boxmap, s.cbinfo.data⟩ })

/-- `init_cb` of arm64. -/
def initCbArm64 (e : Engine) (s : State) (a : Answers) : Bool × State :=
  let ps := e.opts.pagesize
  match a.memfd with
  | none => (false, s)
  | some fd =>
    let size := 2 * MAXCALLBACKS * 16
    let s := { s with host.mem := newFile s.host.mem fd }
    if !a.ftruncate then (false, s)
    else
      match a.aliasmap with
      | none => (false, s)
      | some aliasmap =>
        let mem := s.host.mem.mmapFixed ps aliasmap (size / 2) Prot.readWrite (.sharedFile fd 0)
        let h := setOutcomes { s.host with mem := mem } a.entries
        let err1 := fun (box : LFIBox) (h : Host) =>
          let h := (munmap ps (setOutcomes h a.munmap) aliasmap (size / 2)).2
          (false, { s with box := box, host := h, cbinfo.aliasmap := 0 })
        match boxMapanyLocked e s.box h size (LFI_PROT_READ ||| LFI_PROT_WRITE)
            (LFI_MAP_ANONYMOUS ||| LFI_MAP_PRIVATE) (-1) 0 false with
        | (none, box, h) => err1 box h
        | (some codemap, box, h) =>
          let h := { h with mem := fillCode ps h.mem codemap 16 cbtrampoline }
          let err2 := fun (box : LFIBox) (h : Host) =>
            let u := boxMunmapLocked e box (setOutcomes h a.undo) codemap size
            err1 u.2.1 u.2.2
          match boxMprotectLocked e box (setOutcomes h a.protect) codemap (size / 2)
              (LFI_PROT_READ ||| LFI_PROT_EXEC) true with
          | (r, box, h) =>
            if r = -1 then err2 box h
            else
              match boxMapatLocked e box (setOutcomes h a.data) (codemap + size / 2) (size / 2)
                  LFI_PROT_READ LFI_MAP_SHARED fd 0 with
              | (none, box, h) => err2 box h
              | (some boxmap, box, h) =>
                (true, { s with box := box, host := h, cbinfo := ⟨aliasmap, codemap, boxmap⟩ })

def initCb (e : Engine) (s : State) (a : Answers) : Bool × State :=
  if e.target = arm64 then initCbArm64 e s a else initCbX64 e s a

/-- `sizeof(struct CallbackEntry)`. -/
def entrySize (t : Target) : Nat := if t = arm64 then 16 else 32

/-- `&entries[slot].code[0]`. -/
def entryAddr (e : Engine) (s : State) (slot : Slot) : Nat :=
  s.cbinfo.entries + entrySize e.target * slot

/-- Where in the alias table the target of a slot is. -/
def targetOff (t : Target) (slot : Slot) : Nat := if t = arm64 then 16 * slot else 32 * slot + 16

/-- Where the trampoline is: next to the target. -/
def trampolineOff (t : Target) (slot : Slot) : Nat := targetOff t slot + 8

def cbfreeslot (s : State) : Option Slot := Fin.find? fun i => decide (s.callbacks i = 0)

def cbfind (s : State) (fn : BitVec 64) : Option Slot :=
  Fin.find? fun i => decide (s.callbacks i = fn)

/-- The two stores to the entry of a slot. -/
def setEntry (e : Engine) (s : State) (slot : Slot) (target trampoline : BitVec 64) : State :=
  let ps := e.opts.pagesize
  let mem := s.host.mem.store64 ps (s.cbinfo.aliasmap + targetOff e.target slot) target
  { s with host.mem := mem.store64 ps (s.cbinfo.aliasmap + trampolineOff e.target slot) trampoline }

section

variable (e : Engine) (address : Trampoline → BitVec 64)

/-- `register_cb`, with `none` for `NULL`. -/
def registerCb (s : State) (a : Answers) (fn : BitVec 64) (trampoline : Trampoline) :
    Option Nat × State :=
  let i := if s.cbinfo.entries = 0 then initCb e s a else (true, s)
  if !i.1 then (none, i.2)
  else
    let s := i.2
    match cbfind s fn with
    | some slot => (some (entryAddr e s slot), s)
    | none =>
      match cbfreeslot s with
      | none => (none, s)
      | some slot =>
        let s := setEntry e s slot fn (address trampoline)
        (some (entryAddr e s slot), { s with callbacks := Function.update s.callbacks slot fn })

def lfiBoxRegisterCbStruct (s : State) (a : Answers) (fn : BitVec 64) : Option Nat × State :=
  registerCb e address s a fn .lfiCallbackStruct

def lfiBoxRegisterCb (s : State) (a : Answers) (fn : BitVec 64) : Option Nat × State :=
  registerCb e address s a fn .lfiCallback

def lfiBoxUnregisterCb (s : State) (fn : BitVec 64) : State :=
  match cbfind s fn with
  | none => s
  | some slot =>
    let s := { s with callbacks := Function.update s.callbacks slot 0 }
    setEntry e s slot 0 0

end

end LfiRuntime.Callbacks
