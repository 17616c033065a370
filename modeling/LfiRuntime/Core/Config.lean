import Mathlib.Data.Nat.Notation

/-!
What the build fixes for an architecture (`core.h`), and the options of an
engine.
-/

namespace LfiRuntime.Config

def kb (x : Nat) : Nat := x * 1024

def mb (x : Nat) : Nat := x * 1024 * 1024

def gb (x : Nat) : Nat := x * 1024 * 1024 * 1024

def tb (x : Nat) : Nat := x * 1024 * 1024 * 1024 * 1024

structure Target where
  boxInternalGuard : Nat
  boxExternalGuard : Nat
  regionGuard : Nat
  /-- `HAVE_PKU`. -/
  pku : Bool
  /-- `PROT_BTI` exists: `LFI_ARCH_ARM64` on Linux. -/
  bti : Bool
deriving DecidableEq, Repr

def arm64 : Target := ⟨kb 192, 0, mb 512, false, true⟩

def x64 : Target := ⟨0, gb 4, gb 4, false, false⟩

def x64Pku : Target := ⟨0, 0, 0, true, false⟩

def riscv64 : Target := ⟨0, 0, 0, false, false⟩

/-- The configurations of `core.h`. -/
def all : List Target := [arm64, x64, x64Pku, riscv64]

/-- Total address space of a box. -/
def boxFootprint (t : Target) (boxsize : Nat) : Nat := boxsize + t.boxExternalGuard

structure LFIOptions where
  pagesize : Nat
  boxsize : Nat
  noVerify : Bool
  allowWx : Bool
  noAslr : Bool
deriving DecidableEq, Repr

/-- The part of `struct LFIEngine` that does not change after `lfi_new`. The
verifier sees the address and the bytes of a region. -/
structure Engine where
  target : Target
  opts : LFIOptions
  lfivVerify : Nat → List UInt8 → Bool

end LfiRuntime.Config
