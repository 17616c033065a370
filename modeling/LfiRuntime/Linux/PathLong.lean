import LfiRuntime.Linux.PathConfine

/-!
Paths that do not fit into the buffers of `path_resolve` and of `proc_chdir`.
-/

namespace LfiRuntime.Path

open LfiRuntime.Cwalk
open LfiRuntime.FirstMax
open LfiRuntime.PathNormal

/-! The resolution with buffers that hold every string. -/

def wholePath (cwd path : Str) : Str := if isAbsolute path then path else join cwd path

def wholeMap (map : Str) : Option DirMap :=
  (strchr map '=').map fun eq => ⟨map.take eq, map.drop (eq + 1)⟩

def wholeResult (dirMaps : List Str) (cwd path : Str) : Option Str :=
  let q := normalize (wholePath cwd path)
  let found := (dirMaps.filterMap wholeMap).foldl (Match.step q) Match.none
  found.hostDir.map fun hostDir => join hostDir (q.drop found.commonMatch)

/-- Each of the strings fits: the joined and the normalized path, the directory of
every mapping, and the result. -/
structure NoneCut (dirMaps : List Str) (cwd path : Str) (size : Nat) : Prop where
  joined : isAbsolute path = false → (join cwd path).length < FILENAME_MAX
  normalized : (normalize (wholePath cwd path)).length < FILENAME_MAX
  boxDir : ∀ map ∈ dirMaps, ∀ eq ∈ strchr map '=', eq < FILENAME_MAX
  output : ∀ r ∈ wholeResult dirMaps cwd path, r.length < size

/-- `path_resolve` returns true with a complete path only, and not at all where a
string does not fit. -/
def RefusesCut (dirMaps : Option (List Str)) (cwd path : Str) (size : Nat) : Prop :=
  (∀ r, pathResolve dirMaps cwd path size = some r →
      wholeResult (dirMaps.getD []) cwd path = some r) ∧
    (¬NoneCut (dirMaps.getD []) cwd path size → pathResolve dirMaps cwd path size = none)

/-- The path that the loop over the mappings looks for. -/
def heldPath (cwd path : Str) : Str := inBuffer FILENAME_MAX (normalize (absPath cwd path))

/-- No mapping has anything in common with the path, or one has as much of it in
common as the result may be long. -/
def Refused (dirMaps : List Str) (cwd path : Str) (size : Nat) : Prop :=
  (∀ m ∈ mapsOf dirMaps, common (heldPath cwd path) m = 0) ∨
    ∃ m ∈ mapsOf dirMaps, size ≤ common (heldPath cwd path) m

/-- A working directory that `proc_chdir` stores is the path that it has looked up. -/
def StoresChecked (dirMaps : Option (List Str)) (cwd path : Str) : Prop :=
  ∀ hostCheckdir, (procChdir dirMaps hostCheckdir cwd path).1 = 0 →
    chdirPath cwd path = some (procChdir dirMaps hostCheckdir cwd path).2

variable {dirMaps : List Str} {cwd path q map : Str} {size : Nat}

theorem findMatch_common (q : Str) (dirMaps : List Str) :
    (findMatch q dirMaps = Match.none ∧ ∀ m ∈ mapsOf dirMaps, common q m = 0) ∨
      ∃ m, findMatch q dirMaps = ⟨some m.hostDir, common q m⟩ ∧
        IsFirstMax (common q) (mapsOf dirMaps) m ∧ 0 < common q m := by
  have hfold : findMatch q dirMaps = _ := foldl_step_eq (q := q) (mapsOf dirMaps) ⟨none, 0⟩
  rcases foldl_step (f := common q) (l := mapsOf dirMaps) ⟨none, 0⟩ with
    ⟨heq, hle⟩ | ⟨m, heq, hmax, hpos⟩
  · left
    rw [hfold, heq]
    exact ⟨rfl, fun m hm => Nat.le_zero.mp (hle m hm)⟩
  · right
    rw [hfold, heq]
    exact ⟨m, rfl, hmax, hpos⟩

theorem pathResolve_none_iff :
    pathResolve (some dirMaps) cwd path size = none ↔ Refused dirMaps cwd path size := by
  simp only [pathResolve, Refused]
  rw [← heldPath]
  rcases findMatch_common (heldPath cwd path) dirMaps with ⟨heq, hzero⟩ | ⟨m, heq, hmax, hpos⟩
  · rw [heq]
    exact iff_of_true rfl (.inl hzero)
  · rw [heq]
    simp only [ge_iff_le]
    split
    · rename_i hle
      exact iff_of_true rfl (.inr ⟨m, hmax.mem, hle⟩)
    · rename_i hlt
      refine iff_of_false (by simp) ?_
      rintro (hzero | ⟨m', hm', hle⟩)
      · exact absurd (hzero m hmax.mem) hpos.ne'
      · exact hlt (hle.trans (hmax.le hm'))

theorem absPath_eq (h : isAbsolute path = false → (join cwd path).length < FILENAME_MAX) :
    absPath cwd path = wholePath cwd path := by
  unfold absPath wholePath
  split
  · rfl
  · rename_i hrel
    exact inBuffer_of_lt (h (by simpa using hrel))

theorem parseDirMap_eq (h : ∀ eq ∈ strchr map '=', eq < FILENAME_MAX) :
    parseDirMap map = wholeMap map := by
  unfold parseDirMap wholeMap
  cases heq : strchr map '=' with
  | none => rfl
  | some eq =>
      have hlt := h eq heq
      rw [Option.map_some, Option.map_some, Nat.min_eq_left (by omega)]

/-- What it returns is complete where nothing is cut. -/
theorem pathResolve_whole (h : NoneCut dirMaps cwd path size) {r : Str}
    (hr : pathResolve (some dirMaps) cwd path size = some r) :
    wholeResult dirMaps cwd path = some r := by
  have hmaps : dirMaps.filterMap parseDirMap = dirMaps.filterMap wholeMap :=
    List.filterMap_congr fun map hmap => parseDirMap_eq (h.boxDir map hmap)
  have hwhole := h.output
  simp only [pathResolve, absPath_eq h.joined, inBuffer_of_lt h.normalized, findMatch, hmaps] at hr
  simp only [wholeResult] at hwhole ⊢
  split at hr
  · cases hr
  · rename_i hostDir hfound
    rw [hfound, Option.map_some] at hwhole ⊢
    split at hr
    · cases hr
    · rwa [inBuffer_of_lt (hwhole _ rfl)] at hr

theorem refusesCut_iff (dirMaps : Option (List Str)) (cwd path : Str) (size : Nat) :
    RefusesCut dirMaps cwd path size ↔
      NoneCut (dirMaps.getD []) cwd path size ∨ Refused (dirMaps.getD []) cwd path size := by
  cases dirMaps with
  | none => exact iff_of_true ⟨by simp [pathResolve], fun _ => rfl⟩ (.inr (.inl (by simp [mapsOf])))
  | some dirMaps =>
      rw [Option.getD_some, ← pathResolve_none_iff]
      constructor
      · rintro ⟨-, hcut⟩
        exact or_iff_not_imp_left.mpr hcut
      · rintro (hfits | hnone)
        · exact ⟨fun r => pathResolve_whole hfits, fun hcut => absurd hfits hcut⟩
        · exact ⟨by simp [hnone], fun _ => hnone⟩

/-! The working directory. -/

theorem inBuffer_inBuffer (size : Nat) (q : Str) :
    inBuffer size (inBuffer size q) = inBuffer size q := by
  rw [inBuffer, inBuffer, List.take_take, Nat.min_self]

theorem inBuffer_eq_iff (hsize : 0 < size) : q = inBuffer size q ↔ q.length < size := by
  constructor
  · intro heq
    rw [heq, inBuffer, List.length_take]
    omega
  · exact fun hlt => (inBuffer_of_lt hlt).symm

theorem procChdir_relative (hrel : isAbsolute path = false) (dirMaps : Option (List Str)) :
    StoresChecked dirMaps cwd path := by
  intro hostCheckdir hok
  simp only [procChdir, chdirPath, hrel, Bool.false_eq_true, if_false] at hok ⊢
  split_ifs at hok ⊢
  · cases hok
  · omega
  · rw [inBuffer_inBuffer]

theorem storesChecked_iff (dirMaps : Option (List Str)) (cwd path : Str) :
    StoresChecked dirMaps cwd path ↔ isAbsolute path = false ∨ path.length < FILENAME_MAX ∨
      Refused (dirMaps.getD []) cwd path FILENAME_MAX := by
  cases habs : isAbsolute path with
  | false => exact iff_of_true (procChdir_relative habs dirMaps) (.inl rfl)
  | true =>
      have hnone : pathResolve dirMaps cwd path FILENAME_MAX = none ↔
          Refused (dirMaps.getD []) cwd path FILENAME_MAX := by
        cases dirMaps with
        | none => exact iff_of_true rfl (.inl (by simp [mapsOf]))
        | some dirMaps => exact pathResolve_none_iff
      rw [← hnone, ← inBuffer_eq_iff (by decide), or_iff_right (by simp)]
      have hcheck : ∀ hostCheckdir, (chdirCheck dirMaps hostCheckdir cwd path < 0 →
            (procChdir dirMaps hostCheckdir cwd path).1 ≠ 0) ∧
          (¬chdirCheck dirMaps hostCheckdir cwd path < 0 →
            procChdir dirMaps hostCheckdir cwd path = (0, inBuffer FILENAME_MAX path)) := by
        intro hostCheckdir
        rw [procChdir, if_pos habs]
        simp only
        constructor
        · intro hlt
          rw [if_pos hlt]
          exact Int.ne_of_lt hlt
        · intro hge
          rw [if_neg hge]
      have hpath : chdirPath cwd path = some path := if_pos habs
      constructor
      · intro hall
        rw [or_iff_not_imp_right]
        intro hsome
        obtain ⟨r, hr⟩ := Option.ne_none_iff_exists'.mp hsome
        have hpass : ¬chdirCheck dirMaps (fun _ => 0) cwd path < 0 := by
          rw [chdirCheck, hr]
          simp
        have hstored := hall (fun _ => 0)
        rw [(hcheck _).2 hpass, hpath] at hstored
        exact Option.some.inj (hstored rfl)
      · rintro (heq | hnone) hostCheckdir hok
        · rw [hpath]
          by_cases hlt : chdirCheck dirMaps hostCheckdir cwd path < 0
          · exact absurd hok ((hcheck _).1 hlt)
          · rw [(hcheck _).2 hlt, ← heq]
        · refine absurd hok ((hcheck _).1 ?_)
          rw [chdirCheck, hnone]
          exact (by decide : -LINUX_ENOENT < 0)

/-- When `path_resolve` refuses every string that does not fit, and when `proc_chdir`
stores nothing but what it has looked up. -/
theorem long_paths_refused_iff (dirMaps : Option (List Str)) (cwd path : Str) (size : Nat) :
    (RefusesCut dirMaps cwd path size ↔
        NoneCut (dirMaps.getD []) cwd path size ∨ Refused (dirMaps.getD []) cwd path size) ∧
      (StoresChecked dirMaps cwd path ↔ isAbsolute path = false ∨ path.length < FILENAME_MAX ∨
        Refused (dirMaps.getD []) cwd path FILENAME_MAX) :=
  ⟨refusesCut_iff dirMaps cwd path size, storesChecked_iff dirMaps cwd path⟩

/-- A name of 4095 characters in the root. -/
def longName : Str := '/' :: List.replicate 4095 'a'

/-- The root, written with 4096 separators, and a name. -/
def manySeparators : Str := List.replicate 4096 '/' ++ ['a']

/-- Under a mapping of the root every absolute path is resolved. -/
theorem not_refused (habs : isAbsolute path = true) : ¬Refused rootMap cwd path FILENAME_MAX := by
  have hheld : isAbsolute (heldPath cwd path) = true := by
    rw [heldPath]
    apply isAbsolute_inBuffer
    rwa [isAbsolute_normalize, absPath, if_pos habs]
  have hroot : getRoot (heldPath cwd path) = 1 := by rw [getRoot_eq, if_pos hheld]
  have hcommon : ∀ m ∈ mapsOf rootMap, common (heldPath cwd path) m = 1 := by
    intro m hm
    obtain rfl : m = ⟨"/".toList, "/sysroot".toList⟩ := List.mem_singleton.mp hm
    have hsegs : segments "/".toList = [] := by decide
    rw [common, getIntersection, hroot, if_neg (by decide), if_pos (.inr hsegs)]
  have hmem : ⟨"/".toList, "/sysroot".toList⟩ ∈ mapsOf rootMap := by decide
  rintro (hzero | ⟨m, hm, hle⟩)
  · have hne := hzero _ hmem
    rw [hcommon _ hmem] at hne
    cases hne
  · rw [hcommon m hm] at hle
    exact absurd hle (by decide)

theorem textType_of_length (h : 2 < q.length) : textType q = .normal := by
  rw [textType, if_neg, if_neg] <;>
  · rintro rfl
    exact absurd h (by decide)

/-- A name in the root is in normal form. -/
theorem normalize_root (hclean : Clean q) (htype : textType q = .normal) :
    normalize ('/' :: q) = '/' :: q := by
  have hreduce : reduce textType true [q] = [q] := by
    rw [reduce, List.foldl_cons, push_normal htype]
    rfl
  rw [normalize_eq, texts_separator (by decide), texts_word hclean,
    show isAbsolute ('/' :: q) = true from rfl, render, if_neg (by simp), hreduce, if_neg (by simp)]
  simp

theorem longName_cut : ¬RefusesCut (some rootMap) [] longName FILENAME_MAX ∧
    ¬StoresChecked (some rootMap) [] manySeparators := by
  have hlength : longName.length = FILENAME_MAX := by
    rw [longName, List.length_cons, List.length_replicate]
    rfl
  constructor
  · rintro ⟨-, hcut⟩
    refine not_refused rfl (pathResolve_none_iff.mp (hcut fun hfits => ?_))
    have hlt := hfits.normalized
    have hword : normalize longName = longName := by
      apply normalize_root
      · refine ⟨List.ne_nil_of_length_pos ?_, fun c hc => ?_⟩
        · rw [List.length_replicate]
          decide
        · rw [List.eq_of_mem_replicate hc]
          decide
      · apply textType_of_length
        rw [List.length_replicate]
        decide
    rw [show wholePath [] longName = longName from rfl, hword, hlength] at hlt
    exact lt_irrefl _ hlt
  · rw [storesChecked_iff]
    rintro (hrel | hlt | hrefused)
    · cases hrel
    · rw [manySeparators, List.length_append, List.length_replicate] at hlt
      exact absurd hlt (by decide)
    · exact not_refused rfl hrefused

end LfiRuntime.Path
