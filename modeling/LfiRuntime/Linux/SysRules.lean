import LfiRuntime.Linux.Syshandle

/-!
Rules for the helpers of the handlers, whatever is to hold of the operations.
-/

namespace LfiRuntime.Syscalls

open LfiRuntime.ByteString
open LfiRuntime.Futex
open LfiRuntime.Programs
open LfiRuntime.Programs.Program
open LfiRuntime.Vectored

variable {env : Env} {G : ∀ {β : Type}, SysOp β → Prop} {Q : α → Prop}
  {R : Int → Prop} {p n align : Nat}

@[simp] theorem meets_plain (o : PlainOp α) :
    (plain o).Meets G Q ↔ G (.plain o) ∧ ∀ x, Q x := Iff.rfl

@[simp] theorem meets_noreturn (o : SysOp Empty) : (noreturn o : Sys α).Meets G Q ↔ G o := by
  simp [noreturn]

@[simp] theorem meets_check {Q : Unit → Prop} (c : Bool) :
    (check c).Meets G Q ↔ (c → Q ()) ∧ (c = false → G (.fatal .assertion)) := by
  simp [check]

@[simp] theorem meets_orHostErr (next : β → Sys Int) :
    (∀ r, (orHostErr r next).Meets G R) ↔ (∀ err, R (hostErr err)) ∧ ∀ a, (next a).Meets G R := by
  constructor
  · exact fun h => ⟨fun err => h (.error err), fun a => h (.ok a)⟩
  · rintro ⟨herr, hok⟩ (err | a)
    · exact herr err
    · exact hok a

@[simp] theorem meets_storeFields {Q : Unit → Prop} (fields : List (Nat × Bytes)) :
    (storeFields p fields).Meets G Q ↔ (∀ f ∈ fields, G (.store (p + f.1) f.2)) ∧ Q () := by
  induction fields with
  | nil => simp [storeFields]
  | cons f rest ih => simp [storeFields, ih, and_assoc]

@[simp] theorem meets_withFd (fd : Int) (next : FdRef → Sys Int) :
    (withFd fd next).Meets G R ↔ G (.plain (.fdacquire fd)) ∧
      ∀ f, (next f).Meets G fun r => G (.plain (.fdrelease f.kfd)) ∧ R r := by
  simp [withFd]

theorem bufcheck_iff : bufcheck env p n align = true ↔
    env.box.min ≤ p ∧ p + n ≤ env.box.max ∧ p % align = 0 := by
  simp only [bufcheck, BoxRange.Box.bufcheck, BoxRange.Box.bufvalid, decide_eq_true_eq]
  omega

theorem bufvalid_iff : env.box.bufvalid p n = true ↔ env.box.min ≤ p ∧ p + n ≤ env.box.max := by
  simp only [BoxRange.Box.bufvalid, decide_eq_true_eq]
  omega

theorem ptrcheck_iff : ptrcheck env p = true ↔ env.box.min ≤ p ∧ p < env.box.max := by
  simp [ptrcheck]

@[simp] theorem meets_pathcopy {Q : Option Bytes → Prop} : (pathcopy env p).Meets G Q ↔
    (ptrcheck env p = false → Q none) ∧
    (ptrcheck env p → G (.plain (.malloc Path.FILENAME_MAX)) ∧ Q none ∧
      G (.strncpy p (min (env.box.max - p) (Path.FILENAME_MAX - 1))) ∧
        ∀ path : {bs : Bytes // bs.length ≤ min (env.box.max - p) (Path.FILENAME_MAX - 1)},
          Q (some path.1)) := by
  simp [pathcopy]

@[simp] theorem meets_pathcopyresolve {Q : Option (Bytes × Bytes) → Prop} :
    (pathcopyresolve env p).Meets G Q ↔
      (ptrcheck env p = false → Q none) ∧
      (ptrcheck env p → G (.plain (.malloc Path.FILENAME_MAX)) ∧ Q none ∧
        G (.strncpy p (min (env.box.max - p) (Path.FILENAME_MAX - 1))) ∧
          ∀ path : {bs : Bytes // bs.length ≤ min (env.box.max - p) (Path.FILENAME_MAX - 1)},
            G (.plain (.pathResolve path.1)) ∧ ∀ hostPath, Q (some (path.1, hostPath))) := by
  simp only [pathcopyresolve, meets_bind, meets_pathcopy, meets_pure, meets_plain, Option.forall,
    Option.map_none, Option.map_some]
  constructor
  · rintro ⟨hnone, h⟩
    refine ⟨hnone, fun hp => ?_⟩
    obtain ⟨hmalloc, hnull, hcopy, hrest⟩ := h hp
    exact ⟨hmalloc, hnull, hcopy, fun path => ⟨(hrest path).1, (hrest path).2.2⟩⟩
  · rintro ⟨hnone, h⟩
    refine ⟨hnone, fun hp => ?_⟩
    obtain ⟨hmalloc, hnull, hcopy, hrest⟩ := h hp
    exact ⟨hmalloc, hnull, hcopy, fun path => ⟨(hrest path).1, hnull, (hrest path).2⟩⟩

@[simp] theorem meets_withPath {err : Int} {next : Bytes → Sys Int} :
    (withPath env p err next).Meets G R ↔
      (ptrcheck env p = false → R err) ∧
      (ptrcheck env p → G (.plain (.malloc Path.FILENAME_MAX)) ∧ R err ∧
        G (.strncpy p (min (env.box.max - p) (Path.FILENAME_MAX - 1))) ∧
          ∀ path : {bs : Bytes // bs.length ≤ min (env.box.max - p) (Path.FILENAME_MAX - 1)},
            G (.plain (.pathResolve path.1)) ∧ ∀ hostPath, (next hostPath).Meets G R) := by
  simp [withPath]

@[simp] theorem meets_onFlag {Q : Unit → Prop} (flags flag : BitVec 64) (o : SysOp Unit) :
    (onFlag flags flag o).Meets G Q ↔ (flags &&& flag ≠ 0 → G o) ∧ Q () := by
  simp only [onFlag, meets_ite, meets_perform, meets_pure]
  grind

end LfiRuntime.Syscalls
