import LfiRuntime.Linux.SysRules

/-!
Which memory the handlers access through the pointers of the sandbox.
-/

namespace LfiRuntime.Syscalls

open LfiRuntime.Align
open LfiRuntime.ByteString
open LfiRuntime.Futex
open LfiRuntime.PagedMemory
open LfiRuntime.Programs
open LfiRuntime.Programs.Program
open LfiRuntime.Vectored

/-- The words of a futex call. -/
def futexSpans : Futex.HostCall → List (Nat × Nat)
  | .wait uaddr _ _ _ | .wake uaddr _ _ => [(uaddr, 4)]
  | .requeue uaddr _ _ _ uaddr2 => [(uaddr, 4), (uaddr2, 4)]

/-- The memory of the sandbox that an operation reads or writes: addresses and lengths. -/
def SysOp.spans : SysOp β → List (Nat × Nat)
  | .load p n | .strncpy p n | .hostBuf _ p n => [(p, n)]
  | .store p bs => [(p, bs.length)]
  | .futex c => futexSpans c
  | _ => []

/-- The operation stays in the box, keeps pointers for later that do, and ends the host
only as `F` admits. -/
def SysOp.Within (env : Env) (F : Fatal → Prop) : SysOp β → Prop
  | .fatal f => F f
  | .setCtidp ctid | .cloneCtidp _ ctid => bufcheck env ctid 4 4
  | .passthrough _ _ => False
  | o => ∀ s ∈ o.spans, env.box.min ≤ s.1 ∧ s.1 + s.2 ≤ env.box.max

/-- The handler's operations are within the box. -/
abbrev Confined (env : Env) (F : Fatal → Prop) (p : Sys α) : Prop :=
  p.Meets (SysOp.Within env F) fun _ => True

section

variable {env : Env} {F : Fatal → Prop} {t : LFILinuxThread} {p n align : Nat}

@[simp] theorem within_load :
    SysOp.Within env F (.load p n) ↔ env.box.min ≤ p ∧ p + n ≤ env.box.max := by
  simp [SysOp.Within, SysOp.spans]

@[simp] theorem within_strncpy :
    SysOp.Within env F (.strncpy p n) ↔ env.box.min ≤ p ∧ p + n ≤ env.box.max := by
  simp [SysOp.Within, SysOp.spans]

@[simp] theorem within_store (bs : Bytes) :
    SysOp.Within env F (.store p bs) ↔ env.box.min ≤ p ∧ p + bs.length ≤ env.box.max := by
  simp [SysOp.Within, SysOp.spans]

@[simp] theorem within_hostBuf (c : BufCall) :
    SysOp.Within env F (.hostBuf c p n) ↔ env.box.min ≤ p ∧ p + n ≤ env.box.max := by
  simp [SysOp.Within, SysOp.spans]

@[simp] theorem within_plain (o : PlainOp α) : SysOp.Within env F (.plain o) := by
  simp [SysOp.Within, SysOp.spans]

@[simp] theorem within_fatal (f : Fatal) : SysOp.Within env F (.fatal f) ↔ F f := Iff.rfl

theorem fits_of_bufcheck (h : bufcheck env p n align) :
    env.box.min ≤ p ∧ p + n ≤ env.box.max := by
  rw [bufcheck_iff] at h
  exact ⟨h.1, h.2.1⟩

theorem fits_pathcopy (hp : ptrcheck env p) : env.box.min ≤ p ∧
    p + min (env.box.max - p) (Path.FILENAME_MAX - 1) ≤ env.box.max := by
  rw [ptrcheck_iff] at hp
  omega

/-- Fields that are in a buffer. -/
theorem fits_fields {fields : List (Nat × Bytes)} (hbuf : bufcheck env p n align)
    (hin : ∀ f ∈ fields, f.1 + f.2.length ≤ n) (f : Nat × Bytes) (hf : f ∈ fields) :
    SysOp.Within env F (.store (p + f.1) f.2) := by
  have hle := hin f hf
  rw [bufcheck_iff] at hbuf
  rw [within_store]
  omega

/-! Data of the host. -/

theorem confined_sysRead (fd : Int) : Confined env F (sysRead env fd p n) := by
  simp +contextual [sysRead, bufcheck_iff]

theorem confined_sysWrite (fd : Int) : Confined env F (sysWrite env fd p n) := by
  simp +contextual [sysWrite, bufcheck_iff]

theorem confined_sysPio (call : Int → BufCall) (fd : Int) :
    Confined env F (sysPio env call fd p n) := by
  simp +contextual [sysPio, bufcheck_iff]

theorem confined_sysGetdents64 (fd : Int) : Confined env F (sysGetdents64 env fd p n) := by
  simp +contextual [sysGetdents64, bufcheck_iff]

theorem confined_sysGetrandom (flags : BitVec 32) :
    Confined env F (sysGetrandom env p n flags) := by
  simp +contextual [sysGetrandom, bufcheck_iff]

theorem confined_vecLoop {io : Nat → Nat → Sys Int} (hio : ∀ p n, Confined env F (io p n))
    (vs : List IOVec) (total : Int) : Confined env F (vecLoop io total vs) := by
  induction vs generalizing total with
  | nil => simp [vecLoop]
  | cons v rest ih =>
      rw [vecLoop, Confined, meets_bind]
      apply (hio v.base v.len).mono fun _ h => h
      intro n _
      simp only [meets_ite, meets_pure]
      exact ⟨fun _ => trivial, fun _ => ih _⟩

/-- Whatever the sandbox puts in the list, each element is checked. -/
theorem confined_sysVec {io : Nat → Nat → Sys Int} (hio : ∀ p n, Confined env F (io p n)) :
    Confined env F (sysVec env io p n) := by
  have hloop : ∀ vs, (vecLoop io 0 vs).Meets (SysOp.Within env F) fun _ => True :=
    fun vs => confined_vecLoop hio vs 0
  have hbuf : bufcheck env p (n * 16) 8 → bufcheck env p (n * 16) 1 ∧
      env.box.bufvalid p (n * 16) ∧ env.box.min ≤ p ∧ p + n * 16 ≤ env.box.max := by
    simp only [bufcheck_iff, bufvalid_iff]
    omega
  simp +contextual [sysVec, copyout, hbuf, hloop]

theorem confined_onFd (fd : Int) (call : Int → HostCall) : Confined env F (onFd fd call) := by
  simp [onFd]

theorem meets_boxCopyto {Q : Unit → Prop} {bs : Bytes} (hbuf : bufcheck env p bs.length align) :
    (boxCopyto env p bs).Meets (SysOp.Within env F) Q ↔ Q () := by
  rw [bufcheck_iff] at hbuf
  have hvalid : env.box.bufvalid p bs.length := bufvalid_iff.mpr ⟨hbuf.1, hbuf.2.1⟩
  simp only [boxCopyto, hvalid, meets_bind, meets_check, meets_perform, within_store, hbuf,
    true_and, forall_const, reduceCtorEq, false_implies, and_true]
  exact ⟨fun h => h (), fun h _ => h⟩

theorem confined_sysIoctl (fd : Int) (request : Nat) :
    Confined env F (sysIoctl env fd request p) := by
  simp only [sysIoctl, meets_ite, meets_withFd, meets_bind, meets_plain, meets_pure, within_plain,
    Bool.not_eq_true', Bool.not_eq_false, implies_true, true_and, and_true]
  intro _ hbuf f _
  rintro (errno | ws)
  · trivial
  · have hlen : ws.bytes.length = 8 := by simp [WinSize.bytes]
    rw [← hlen] at hbuf
    simp [meets_boxCopyto hbuf]

/-! Paths. -/

theorem confined_withPath {err : Int} {next : Bytes → Sys Int}
    (hnext : ptrcheck env p → ∀ hostPath, Confined env F (next hostPath)) :
    Confined env F (withPath env p err next) := by
  simp only [Confined] at hnext
  simp +contextual [fits_pathcopy, hnext]

theorem confined_onPath (call : Bytes → HostCall) : Confined env F (onPath env p call) := by
  exact confined_withPath fun _ _ => by simp

theorem confined_sysOpenat (dirfd : Int) (flags mode : BitVec 32) :
    Confined env F (sysOpenat env dirfd p flags mode) := by
  simp +contextual [sysOpenat, fits_pathcopy]

theorem confined_sysRenameat (olddir newdir : Int) :
    Confined env F (sysRenameat env olddir p newdir n) := by
  simp only [sysRenameat, meets_ite, meets_pure]
  refine ⟨fun _ => trivial, fun _ => confined_withPath fun _ old => ?_⟩
  exact confined_withPath fun _ new => by simp

theorem confined_sysReadlinkat (dirfd : Int) (pathp : Nat) :
    Confined env F (sysReadlinkat env dirfd pathp p n) := by
  simp only [sysReadlinkat, meets_ite, meets_pure]
  refine ⟨fun _ => trivial, fun _ => confined_withPath fun _ path => ?_⟩
  simp +contextual [bufcheck_iff]

theorem confined_sysChdir : Confined env F (sysChdir env p) := by
  simp +contextual [sysChdir, fits_pathcopy]

theorem confined_sysFchdir (fd : Int) : Confined env F (sysFchdir fd) := by
  simp only [sysFchdir, meets_ite, meets_bind, meets_plain, meets_pure, within_plain, true_and,
    implies_true]
  rintro - (_ | _ | dir) <;> simp

theorem confined_sysGetcwd : Confined env F (sysGetcwd env p n) := by
  simp +contextual [sysGetcwd, bufcheck_iff]
  omega

theorem statFields_fit (arch : Arch) (k : KStat) (f : Nat × Bytes) (hf : f ∈ statFields arch k) :
    f.1 + f.2.length ≤ statSize arch := by
  revert f
  cases arch <;> simp [statFields, statSize]

theorem confined_hostFstatat {call : PlainOp (Except HostErrno KStat)} {flags : BitVec 32}
    (hbuf : bufcheck env p (statSize env.arch) 8)
    (hF : flags ≠ LINUX_AT_EMPTY_PATH → flags ≠ 0 → F .assertion) :
    Confined env F (hostFstatat env call p flags) := by
  have hfields := fun k => @fits_fields env F _ _ _ _ hbuf (statFields_fit env.arch k)
  simp only [hostFstatat, meets_bind, meets_check, meets_plain, meets_orHostErr,
    meets_storeFields, meets_pure, within_plain]
  refine ⟨fun _ => ⟨trivial, fun _ => trivial, fun k => ⟨hfields k, trivial⟩⟩, fun hflags => ?_⟩
  simp only [decide_eq_false_iff_not, not_or] at hflags
  exact hF hflags.1 hflags.2

theorem confined_sysNewfstatat {flags : BitVec 32} {dirfd : Int} {pathp : Nat}
    (hF : OddStat env dirfd pathp p flags → F .assertion) :
    Confined env F (sysNewfstatat env dirfd pathp p flags) := by
  simp only [sysNewfstatat, meets_ite, meets_pure, Bool.not_eq_true', Bool.not_eq_false]
  refine ⟨fun _ => trivial, fun hbuf => ⟨fun hflags => ?_, fun _ => ?_⟩⟩
  · apply confined_withPath
    intro hpath path
    simp only [meets_ite, meets_pure, not_not]
    refine ⟨fun _ => trivial, fun hcwd => confined_hostFstatat hbuf fun _ hne => ?_⟩
    exact hF ⟨hbuf, hpath, hcwd, hflags, hne⟩
  · simp only [meets_withFd, meets_ite, meets_pure, within_plain, true_and]
    intro f
    refine ⟨fun _ => trivial, fun _ => ?_⟩
    exact confined_hostFstatat hbuf fun hne => absurd rfl hne

/-! Times, and other data of the system. -/

theorem confined_sysClockGettime (clockid : Int) :
    Confined env F (sysClockGettime env clockid p) := by
  rw [Confined, sysClockGettime]
  cases hostClockid clockid with
  | none => trivial
  | some hClockid =>
      simp +contextual [timeFields, bufcheck_iff]
      omega

theorem confined_loadTime (hbuf : bufcheck env p 16 8) : Confined env F (loadTime p) := by
  rw [bufcheck_iff] at hbuf
  simp only [loadTime, meets_bind, meets_perform, meets_pure, within_load, implies_true, and_true]
  exact ⟨⟨by omega, by omega⟩, fun _ => ⟨by omega, by omega⟩⟩

theorem timeFields_fit (ts : TimeSpec) (f : Nat × Bytes) (hf : f ∈ timeFields ts) :
    f.1 + f.2.length ≤ 16 := by
  revert f
  simp [timeFields]

theorem confined_sysNanosleep : Confined env F (sysNanosleep env p n) := by
  simp only [sysNanosleep, meets_ite, meets_bind, meets_pure, Bool.not_eq_true', Bool.not_eq_false,
    meets_plain, meets_orHostErr, meets_storeFields, within_plain, true_and, implies_true, and_true]
  intro hreq
  apply (confined_loadTime hreq).mono fun _ h => h
  intro req _ rem _ hrem
  exact fits_fields hrem (timeFields_fit rem)

theorem confined_sysTime : Confined env F (sysTime p) := by
  simp [sysTime]

theorem sysinfo_fit (k : KSysInfo) (f : Nat × Bytes) (hf : f ∈ k.fields) :
    f.1 + f.2.length ≤ 368 := by
  revert f
  simp [KSysInfo.fields, KSysInfo.bytes]

theorem confined_sysSysinfo : Confined env F (sysSysinfo env p) := by
  simp only [sysSysinfo, meets_ite, meets_bind, meets_plain, meets_orHostErr, meets_storeFields,
    meets_pure, Bool.not_eq_true', Bool.not_eq_false, within_plain, true_and, implies_true, and_true]
  intro hbuf k
  exact fits_fields hbuf (sysinfo_fit k)

theorem uname_fit (arch : Arch) (f : Nat × Bytes) (hf : f ∈ unameFields arch) :
    f.1 + f.2.length ≤ 325 := by
  revert f
  cases arch <;> decide

theorem confined_sysUname : Confined env F (sysUname env p) := by
  simp only [sysUname, meets_ite, meets_bind, meets_storeFields, meets_pure, Bool.not_eq_true',
    Bool.not_eq_false, implies_true, true_and, and_true]
  intro hbuf
  exact fits_fields hbuf (uname_fit env.arch)

theorem confined_sysGetrlimit (resource : Int) :
    Confined env F (sysGetrlimit env t resource p) := by
  rw [Confined, sysGetrlimit]
  cases rlimit env t resource with
  | none => simp
  | some limit =>
      simp +contextual [bufcheck_iff]
      omega

theorem confined_sysSchedGetaffinity : Confined env F (sysSchedGetaffinity env n p) := by
  simp only [sysSchedGetaffinity, copyin, meets_ite, meets_bind, meets_check, meets_plain,
    meets_pure, Bool.not_eq_true', Bool.not_eq_false, within_plain, true_and, implies_true]
  intro _ hbuf ok _
  have hmask : bufcheck env p (cpuMask (min env.cpucount (ceilp env.cpucount 64 / 8 * 8))
      (ceilp env.cpucount 64 / 8)).length 1 := by
    simpa [cpuMask] using hbuf
  rw [hmask]
  simp [meets_boxCopyto hmask]

theorem confined_sysPrctl (op : Int) : Confined env F (sysPrctl env op p) := by
  simp +contextual [sysPrctl, prSetName, bufcheck_iff]

end

end LfiRuntime.Syscalls
