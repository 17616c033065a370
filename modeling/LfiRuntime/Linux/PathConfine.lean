import LfiRuntime.Lib.Runs
import LfiRuntime.Linux.PathSpec

/-!
The host paths that a process gets at, over all of its calls that change the
working directory or look up a path.
-/

namespace LfiRuntime.Path

open LfiRuntime.Cwalk
open LfiRuntime.FirstMax
open LfiRuntime.PathNormal
open LfiRuntime.Runs

/-- A call of `path_resolve` that has returned true, with the working directory it
has found. -/
structure Lookup where
  cwd : Str
  path : Str
  size : Nat
  result : Str
deriving DecidableEq, Repr

/-- A process: its `cwd.path`, empty until it is first set, and the lookups that it
has made. -/
structure Process where
  cwd : Str
  lookups : List Lookup

/-- What `lfi_proc_new` starts with; an `opts.wd` is a first `chdir`. -/
def Process.start : Process := ⟨[], []⟩

/-- A system call. `hostCheckdir` is what the host says at the time. -/
inductive Call
  | chdir (path : Str) (hostCheckdir : Str → Int)
  | fchdir (dir : Str) (hostCheckdir : Str → Int)
  | lookup (path : Str) (size : Nat)

/-- The path that `proc_chdir` has looked up. -/
def chdirPath (cwd path : Str) : Option Str :=
  if isAbsolute path then some path
  else if cwd = [] then none else some (inBuffer FILENAME_MAX (join cwd path))

/-- The path that a call looks up, and the size of the buffer. -/
def Call.target (cwd : Str) : Call → Option (Str × Nat)
  | chdir path _ => (chdirPath cwd path).map (·, FILENAME_MAX)
  | fchdir dir _ => (chdirPath cwd (inBuffer FILENAME_MAX dir)).map (·, FILENAME_MAX)
  | lookup path size => some (path, size)

def Call.newCwd (dirMaps : List Str) (cwd : Str) : Call → Str
  | chdir path hostCheckdir => (procChdir (some dirMaps) hostCheckdir cwd path).2
  | fchdir dir hostCheckdir => (sysFchdir (some dirMaps) hostCheckdir cwd dir).2
  | lookup _ _ => cwd

def Process.found (dirMaps : List Str) (p : Process) (call : Call) : List Lookup :=
  match call.target p.cwd with
  | none => []
  | some (path, size) =>
    ((pathResolve (some dirMaps) p.cwd path size).map fun r => ⟨p.cwd, path, size, r⟩).toList

def Process.step (dirMaps : List Str) (p : Process) (call : Call) : Process :=
  ⟨call.newCwd dirMaps p.cwd, p.found dirMaps call ++ p.lookups⟩

def Step (dirMaps : List Str) (p : Process) (call : Call) (p' : Process) : Prop :=
  p' = p.step dirMaps call

/-- Read lexically, the path is the directory or lies below it. -/
def Below (dir path : Str) : Prop :=
  isAbsolute path = isAbsolute dir ∧
    ∃ rest, Named textType rest ∧ normalForm path = normalForm dir ++ rest

def Confined (dirMaps : List Str) (l : Lookup) : Prop :=
  Whole dirMaps l.cwd l.path l.size → ∃ m ∈ mapsOf dirMaps, Below m.hostDir l.result

/-- Behind what the path shares with the mapping that is taken for it, it climbs no
further. -/
def StaysBelow (dirMaps : List Str) (path : Str) : Prop :=
  ∀ m, IsFirstMax (rank path) (mapsOf dirMaps) m → 0 < rank path m →
    Named textType ((normalForm path).drop (sharedWith path m))

/-- The condition on a call. -/
def NotClimbing (dirMaps : List Str) (p : Process) (call : Call) : Prop :=
  ∀ path size, call.target p.cwd = some (path, size) → StaysBelow dirMaps (absPath p.cwd path)

variable {dirMaps : List Str} {cwd path : Str} {size : Nat} {p p' : Process} {call : Call}

/-- An absolute path climbs nowhere. -/
theorem staysBelow_of_absolute (habs : isAbsolute path = true) : StaysBelow dirMaps path := by
  intro m _ _ t ht
  have hnamed : Named textType (normalForm path) := by
    rw [normalForm, habs]
    exact named_reduce_absolute
  exact hnamed t (List.mem_of_mem_drop ht)

theorem below_hostPath {m : DirMap}
    (hnamed : Named textType ((normalForm path).drop (sharedWith path m))) :
    Below m.hostDir (hostPath path m) := by
  have hclean : ∀ t ∈ texts m.hostDir ++ (normalForm path).drop (sharedWith path m), Clean t := by
    intro t ht
    rcases List.mem_append.mp ht with ht | ht
    · exact texts_clean t ht
    · exact texts_clean t (mem_reduce (List.mem_of_mem_drop ht))
  refine ⟨isAbsolute_render hclean, _, hnamed, ?_⟩
  rw [hostPath, normalForm_render hclean, reduce_append_named hnamed]
  rfl

theorem confined_of_staysBelow {r : Str} (hstays : StaysBelow dirMaps (absPath cwd path))
    (hr : pathResolve (some dirMaps) cwd path size = some r) :
    Confined dirMaps ⟨cwd, path, size, r⟩ := by
  intro hwhole
  obtain ⟨m, heq, hmax, hpos⟩ := hostPath_of_pathResolve hwhole hr
  dsimp only at heq ⊢
  rw [heq]
  exact ⟨m, hmax.mem, below_hostPath (hstays m hmax hpos)⟩

theorem found_confined (hok : NotClimbing dirMaps p call) :
    ∀ l ∈ p.found dirMaps call, Confined dirMaps l := by
  intro l hl
  unfold Process.found at hl
  split at hl
  · cases hl
  · rename_i path size htarget
    obtain ⟨r, hr, rfl⟩ := Option.map_eq_some_iff.mp (Option.mem_toList.mp hl)
    exact confined_of_staysBelow (hok path size htarget) hr

/-! The working directory. -/

/-- Once it is set, it is absolute. -/
def CwdOk (cwd : Str) : Prop := cwd = [] ∨ isAbsolute cwd = true

theorem isAbsolute_inBuffer (habs : isAbsolute path = true) :
    isAbsolute (inBuffer FILENAME_MAX path) = true := by
  rcases path with _ | ⟨c, path⟩
  · cases habs
  · exact habs

theorem isAbsolute_absPath (hcwd : CwdOk cwd) (h : isAbsolute path = true ∨ cwd ≠ []) :
    isAbsolute (absPath cwd path) = true := by
  unfold absPath
  split
  · assumption
  · rename_i hrel
    have habs : isAbsolute cwd = true := hcwd.resolve_left (h.resolve_left hrel)
    apply isAbsolute_inBuffer
    rw [join_eq, isAbsolute_render]
    · exact habs
    · intro t ht
      rcases List.mem_append.mp ht with ht | ht <;> exact texts_clean t ht

theorem procChdir_cwdOk {hostCheckdir : Str → Int} (h : CwdOk cwd) :
    CwdOk (procChdir (some dirMaps) hostCheckdir cwd path).2 := by
  unfold procChdir
  split
  · rename_i habs
    simp only
    split
    · exact h
    · exact .inr (isAbsolute_inBuffer habs)
  · split
    · exact h
    · rename_i hne
      simp only
      split
      · exact h
      · have hjoin : isAbsolute (join cwd path) = true := by
          rw [join_eq, isAbsolute_render]
          · exact h.resolve_left hne
          · intro t ht
            rcases List.mem_append.mp ht with ht | ht <;> exact texts_clean t ht
        exact .inr (isAbsolute_inBuffer (isAbsolute_inBuffer hjoin))

theorem newCwd_cwdOk (h : CwdOk cwd) : CwdOk (call.newCwd dirMaps cwd) := by
  cases call with
  | chdir path hostCheckdir => exact procChdir_cwdOk h
  | fchdir dir hostCheckdir => exact procChdir_cwdOk h
  | lookup path size => exact h

structure Inv (dirMaps : List Str) (p : Process) : Prop where
  cwd : CwdOk p.cwd
  lookups : ∀ l ∈ p.lookups, Confined dirMaps l

theorem step_inv (h : Inv dirMaps p) (hok : NotClimbing dirMaps p call)
    (hstep : Step dirMaps p call p') : Inv dirMaps p' := by
  obtain rfl := hstep
  refine ⟨newCwd_cwdOk h.cwd, fun l hl => ?_⟩
  rcases List.mem_append.mp hl with hl | hl
  · exact found_confined hok l hl
  · exact h.lookups l hl

/-- In a process that has a working directory nothing climbs. -/
theorem notClimbing_of_cwd (habs : isAbsolute p.cwd = true) : NotClimbing dirMaps p call := by
  intro path size _
  apply staysBelow_of_absolute
  apply isAbsolute_absPath (.inr habs)
  rcases hcwd : p.cwd with _ | ⟨c, rest⟩
  · rw [hcwd] at habs
    cases habs
  · exact .inr (List.cons_ne_nil c rest)

/-- Every host path that a run gets at is in a mapped directory, if no call climbs
behind the directory that is mapped for it; and none does once there is a working
directory. -/
theorem lookups_confined
    (hrun : Reaches (Step dirMaps) (NotClimbing dirMaps) .start p) :
    (∀ l ∈ p.lookups, Confined dirMaps l) ∧
      (p.cwd = [] ∨ ∀ call, NotClimbing dirMaps p call) := by
  have hinv : Inv dirMaps p :=
    hrun.invariant ⟨.inl rfl, by simp [Process.start]⟩ fun _ _ _ h hok hstep => step_inv h hok hstep
  refine ⟨hinv.lookups, ?_⟩
  rcases hinv.cwd with hnil | habs
  · exact .inl hnil
  · exact .inr fun _ => notClimbing_of_cwd habs

def rootMap : List Str := ["/=/sysroot".toList]

/-- A process that changes to `/work` and looks up a path that climbs above the root. -/
def climber : Process :=
  (Process.start.step rootMap (.chdir "/work".toList fun _ => 0)).step rootMap
    (.lookup "../../../etc/./passwd".toList FILENAME_MAX)

theorem climber_confined : climber.cwd = "/work".toList ∧
    climber.lookups.map Lookup.result =
      ["/sysroot/etc/passwd".toList, "/sysroot/work".toList] ∧
    ∀ l ∈ climber.lookups, Confined rootMap l := by
  refine ⟨by decide, by decide, (lookups_confined ?_).1⟩
  apply Reaches.tail (Reaches.tail (Reaches.refl _) ?_ rfl) ?_ rfl
  · intro path size htarget
    obtain ⟨rfl, -⟩ := Prod.mk.inj (Option.some.inj htarget)
    exact staysBelow_of_absolute rfl
  · exact notClimbing_of_cwd (by decide)

def parentMap : List Str := ["..=/host".toList]

/-- Without a working directory, under a mapping of `..`. -/
def escaper : Process :=
  Process.start.step parentMap (.lookup "../../x".toList FILENAME_MAX)

theorem escaper_not_confined :
    Reaches (Step parentMap) anyStep .start escaper ∧
      escaper.lookups = [⟨[], "../../x".toList, FILENAME_MAX, "/x".toList⟩] ∧
      ¬∀ l ∈ escaper.lookups, Confined parentMap l := by
  refine ⟨.tail (.refl _) trivial rfl, by decide, fun hall => ?_⟩
  have hmaps : ∀ m ∈ mapsOf parentMap, m = ⟨"..".toList, "/host".toList⟩ := by
    intro m hm
    simpa using (show m ∈ [⟨"..".toList, "/host".toList⟩] from hm)
  have hwhole : Whole parentMap [] "../../x".toList FILENAME_MAX := by
    refine ⟨by decide, by decide, fun m hmax => ?_⟩
    rw [hmaps m hmax.mem]
    decide
  obtain ⟨m, hm, -, rest, -, heq⟩ :=
    hall ⟨[], "../../x".toList, FILENAME_MAX, "/x".toList⟩ (by decide) hwhole
  rw [hmaps m hm] at heq
  have hhead : some "x".toList = some "host".toList := congrArg List.head? heq
  exact absurd hhead (by decide)

end LfiRuntime.Path
