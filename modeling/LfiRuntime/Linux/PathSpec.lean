import LfiRuntime.Lib.FirstMax
import LfiRuntime.Linux.CwalkSpec
import LfiRuntime.Linux.Path

/-!
Which mapping `path_resolve` takes: the first of those that share the most leading
segments with the path.
-/

namespace LfiRuntime.Path

open LfiRuntime.Cwalk
open LfiRuntime.FirstMax
open LfiRuntime.PathNormal

variable {a b cwd path q : Str} {dirMaps : List Str} {maps : List DirMap} {m : DirMap} {size : Nat}

/-- The leading segments that a path has in common with a mapping. A relative path
has none with an absolute one. -/
def sharedWith (path : Str) (m : DirMap) : Nat :=
  if isAbsolute path = isAbsolute m.boxDir then shared (normalForm path) (normalForm m.boxDir)
  else 0

/-- How the mappings are ranked; the root of an absolute path counts. -/
def rank (path : Str) (m : DirMap) : Nat :=
  if isAbsolute path = isAbsolute m.boxDir then
    (if isAbsolute path then 1 else 0) + shared (normalForm path) (normalForm m.boxDir)
  else 0

def mapsOf (dirMaps : List Str) : List DirMap := dirMaps.filterMap parseDirMap

/-- The length that the loop compares. -/
def common (q : Str) (m : DirMap) : Nat := getIntersection q m.boxDir

theorem inBuffer_of_lt (h : a.length < size) : inBuffer size a = a :=
  List.take_of_length_le (by omega)

theorem shared_le_segments (h : Normalized q) (b : Str) :
    shared (normalForm q) (normalForm b) ≤ (segments q).length := by
  have hle := shared_le_left (normalForm q) (normalForm b)
  rcases h with h | ⟨-, hnil⟩
  · have hlen : (normalForm q).length = (segments q).length := by rw [← h, texts, List.length_map]
    rwa [← hlen]
  · rw [hnil]
    exact Nat.zero_le _

theorem rank_le (h : Normalized q) (m : DirMap) : rank q m ≤ getRoot q + (segments q).length := by
  have hle := shared_le_segments h m.boxDir
  unfold rank
  rw [getRoot_eq]
  split
  · omega
  · exact Nat.zero_le _

/-- The length of the path up to where `r` of it is shared. -/
def lengthAt (q : Str) (r : Nat) : Nat :=
  if r = 0 then 0 else endOf (getRoot q) (segments q) (r - getRoot q)

theorem common_eq (h : Normalized q) (m : DirMap) : common q m = lengthAt q (rank q m) := by
  rw [common, getIntersection_eq h, lengthAt, rank, getRoot_eq]
  split
  · cases isAbsolute q with
    | true => simp
    | false =>
        by_cases hzero : shared (normalForm q) (normalForm m.boxDir) = 0
        · simp [hzero, endOf_zero]
        · simp [hzero]
  · simp

theorem lengthAt_lt {r r' : Nat} (hlt : r < r') (hle : r' ≤ getRoot q + (segments q).length) :
    lengthAt q r < lengthAt q r' := by
  have hasc : Ascending (getRoot q) (segments q) := segments_ascending
  unfold lengthAt
  rw [if_neg (by omega : r' ≠ 0)]
  by_cases hr : r = 0
  · rw [if_pos hr]
    by_cases hroot : getRoot q = 0
    · rw [hroot, Nat.zero_add] at hle
      rw [hroot] at hasc ⊢
      have hpos := endOf_lt hasc (Nat.pos_of_ne_zero (by omega : r' - 0 ≠ 0)) hle
      rwa [endOf_zero] at hpos
    · exact (Nat.pos_of_ne_zero hroot).trans_le (le_endOf hasc _)
  · rw [if_neg hr]
    have hroot : getRoot q ≤ 1 := by
      rw [getRoot_eq]
      split <;> omega
    exact endOf_lt hasc (by omega) (by omega)

/-- The lengths rank the mappings by the segments. -/
theorem common_lt_iff (h : Normalized q) (m m' : DirMap) :
    common q m < common q m' ↔ rank q m < rank q m' := by
  rw [common_eq h, common_eq h]
  rcases Nat.lt_trichotomy (rank q m) (rank q m') with hlt | heq | hgt
  · exact iff_of_true (lengthAt_lt hlt (rank_le h m')) hlt
  · rw [heq]
    simp
  · exact iff_of_false (Nat.lt_asymm (lengthAt_lt hgt (rank_le h m))) (Nat.lt_asymm hgt)

theorem common_pos_iff (h : Normalized q) (m : DirMap) : 0 < common q m ↔ 0 < rank q m := by
  rw [common_eq h]
  by_cases hzero : rank q m = 0
  · simp [hzero, lengthAt]
  · have hpos : 0 < rank q m := Nat.pos_of_ne_zero hzero
    have hlt := lengthAt_lt (q := q) hpos (rank_le h m)
    exact iff_of_true (Nat.zero_lt_of_lt hlt) hpos

/-! The loop over the mappings. -/

theorem foldl_step_eq (maps : List DirMap) (best : Best DirMap) :
    maps.foldl (Match.step q) ⟨best.elem.map DirMap.hostDir, best.measure⟩ =
      let found := maps.foldl (Best.step (common q)) best
      ⟨found.elem.map DirMap.hostDir, found.measure⟩ := by
  induction maps generalizing best with
  | nil => rfl
  | cons m maps ih =>
      rw [List.foldl_cons, List.foldl_cons, ← ih]
      congr 1
      by_cases hlt : getIntersection q m.boxDir > best.measure <;>
        simp [Match.step, Best.step, common, hlt]

theorem findMatch_cases (h : Normalized q) (dirMaps : List Str) :
    (findMatch q dirMaps = Match.none ∧ ∀ m ∈ mapsOf dirMaps, rank q m = 0) ∨
      ∃ m, findMatch q dirMaps = ⟨some m.hostDir, common q m⟩ ∧
        IsFirstMax (rank q) (mapsOf dirMaps) m ∧ 0 < rank q m := by
  have hfold : findMatch q dirMaps = _ := foldl_step_eq (q := q) (mapsOf dirMaps) ⟨none, 0⟩
  rcases foldl_step (f := common q) (l := mapsOf dirMaps) ⟨none, 0⟩ with
    ⟨heq, hle⟩ | ⟨m, heq, hmax, hpos⟩
  · left
    rw [hfold, heq]
    refine ⟨rfl, fun m hm => ?_⟩
    by_contra hne
    exact absurd ((common_pos_iff h m).mpr (Nat.pos_of_ne_zero hne)) (Nat.not_lt.mpr (hle m hm))
  · right
    rw [hfold, heq]
    refine ⟨m, rfl, hmax.congr ?_ ?_, (common_pos_iff h m).mp hpos⟩
    · exact fun a _ b _ hlt => (common_lt_iff h a b).mp hlt
    · intro a _ b _ hle
      exact Nat.not_lt.mp fun hlt => Nat.not_lt.mpr hle ((common_lt_iff h b a).mpr hlt)

/-- What is left of the path behind the part that is shared. -/
theorem texts_drop_common (h : Normalized q) (hpos : 0 < rank q m) :
    texts (q.drop (common q m)) = (normalForm q).drop (sharedWith q m) := by
  have hroot : isAbsolute q = isAbsolute m.boxDir := by
    by_contra hne
    simp [rank, hne] at hpos
  have hle := shared_le_left (normalForm q) (normalForm m.boxDir)
  rw [rank, if_pos hroot] at hpos
  rw [common, getIntersection_eq h, if_pos hroot, sharedWith, if_pos hroot]
  cases hk : shared (normalForm q) (normalForm m.boxDir) with
  | zero =>
      -- nothing but the root is shared
      have habs : isAbsolute q = true := by
        cases habs : isAbsolute q with
        | true => rfl
        | false => simp [habs, hk] at hpos
      rw [endOf_zero, getRoot_eq, if_pos habs, List.drop_zero, ← h.texts_eq (.inl habs)]
      rcases q with _ | ⟨c, q⟩
      · cases habs
      · have hc : isSeparator c = true := by
          by_contra hc
          simp [isAbsolute, getRoot, hc] at habs
        rw [texts_separator hc]
        rfl
  | succ k =>
      rw [hk] at hle
      have hne : normalForm q ≠ [] := by
        intro hnil
        rw [hnil, List.length_nil] at hle
        omega
      rw [← h.texts_eq (.inr hne)] at hle ⊢
      exact texts_drop_endOf (Nat.succ_pos k) (by omega)

/-! `path_resolve`, where nothing is cut off. -/

/-- Every string fits into its buffer. -/
structure Fits (dirMaps : List Str) (cwd path : Str) (size : Nat) : Prop where
  joined : isAbsolute path = false → (join cwd path).length < FILENAME_MAX
  normalized : (normalize (absPath cwd path)).length < FILENAME_MAX
  shorter : (normalize (absPath cwd path)).length < size
  output : ∀ m ∈ mapsOf dirMaps,
    (join m.hostDir ((normalize (absPath cwd path)).drop
      (common (normalize (absPath cwd path)) m))).length < size

theorem normalized_normalize (path : Str) : Normalized (normalize path) := by
  rw [normalize_eq]
  exact normalized_render texts_clean

theorem isAbsolute_normalize (path : Str) : isAbsolute (normalize path) = isAbsolute path := by
  rw [normalize_eq, isAbsolute_render texts_clean]

theorem normalForm_normalize (path : Str) : normalForm (normalize path) = normalForm path := by
  rw [normalize_eq, normalForm_render texts_clean]
  rfl

theorem common_le (h : Normalized q) (m : DirMap) : common q m ≤ q.length := by
  rw [common, getIntersection_eq h]
  split
  · have hroot : getRoot q ≤ 0 + q.length := by
      cases q with
      | nil => simp [getRoot]
      | cons c q =>
          rw [getRoot_eq, List.length_cons]
          split <;> omega
    simpa [segments] using @endOf_le _ 0 _ [] _ hroot
  · exact Nat.zero_le _

/-- The host path that a mapping gives the path `q`, behind the part they share. -/
def hostPath (q : Str) (m : DirMap) : Str :=
  render (isAbsolute m.hostDir) (texts m.hostDir ++ (normalForm q).drop (sharedWith q m))

theorem join_common (q : Str) (m : DirMap) (hpos : 0 < rank q m) :
    join m.hostDir ((normalize q).drop (common (normalize q) m)) = hostPath q m := by
  have hq : Normalized (normalize q) := normalized_normalize q
  have hrank : rank (normalize q) m = rank q m := by
    rw [rank, rank, isAbsolute_normalize, normalForm_normalize]
  have hshared : sharedWith (normalize q) m = sharedWith q m := by
    rw [sharedWith, sharedWith, isAbsolute_normalize, normalForm_normalize]
  rw [join_eq, texts_drop_common hq (hrank ▸ hpos), normalForm_normalize, hshared, hostPath]

/-- The mapping that is taken, for a path that is normalized whole. -/
theorem pathResolve_taken (h : (normalize (absPath cwd path)).length < FILENAME_MAX) :
    (pathResolve (some dirMaps) cwd path size = none ∧
        ∀ m ∈ mapsOf dirMaps, rank (absPath cwd path) m = 0) ∨
      ∃ m, IsFirstMax (rank (absPath cwd path)) (mapsOf dirMaps) m ∧
        0 < rank (absPath cwd path) m ∧
        pathResolve (some dirMaps) cwd path size =
          if common (normalize (absPath cwd path)) m ≥ size then none
          else some (inBuffer size (hostPath (absPath cwd path) m)) := by
  have hq : Normalized (normalize (absPath cwd path)) := normalized_normalize _
  have hrank : rank (normalize (absPath cwd path)) = rank (absPath cwd path) := by
    funext m
    rw [rank, rank, isAbsolute_normalize, normalForm_normalize]
  simp only [pathResolve, inBuffer_of_lt h]
  rcases findMatch_cases hq dirMaps with ⟨hnone, hzero⟩ | ⟨m, hfound, hmax, hpos⟩
  · left
    rw [hrank] at hzero
    exact ⟨by rw [hnone, Match.none], hzero⟩
  · right
    refine ⟨m, hrank ▸ hmax, hrank ▸ hpos, ?_⟩
    rw [hfound]
    simp only [join_common _ m (hrank ▸ hpos)]

theorem pathResolve_cases (h : Fits dirMaps cwd path size) :
    (pathResolve (some dirMaps) cwd path size = none ∧
        ∀ m ∈ mapsOf dirMaps, rank (absPath cwd path) m = 0) ∨
      ∃ m, pathResolve (some dirMaps) cwd path size = some (hostPath (absPath cwd path) m) ∧
        IsFirstMax (rank (absPath cwd path)) (mapsOf dirMaps) m ∧
        0 < rank (absPath cwd path) m := by
  refine (pathResolve_taken h.normalized).imp_right fun ⟨m, hmax, hpos, heq⟩ => ?_
  have hlt : common (normalize (absPath cwd path)) m < size :=
    (common_le (normalized_normalize _) m).trans_lt h.shorter
  have houtput := h.output m hmax.mem
  rw [join_common _ m hpos] at houtput
  refine ⟨m, ?_, hmax, hpos⟩
  rw [heq, if_neg (by omega), inBuffer_of_lt houtput]

/-- Nothing that leads to the result is cut off. -/
structure Whole (dirMaps : List Str) (cwd path : Str) (size : Nat) : Prop where
  joined : isAbsolute path = false → (join cwd path).length < FILENAME_MAX
  normalized : (normalize (absPath cwd path)).length < FILENAME_MAX
  output : ∀ m, IsFirstMax (rank (absPath cwd path)) (mapsOf dirMaps) m →
    (join m.hostDir ((normalize (absPath cwd path)).drop
      (common (normalize (absPath cwd path)) m))).length < size

theorem hostPath_of_pathResolve {r : Str} (h : Whole dirMaps cwd path size)
    (hr : pathResolve (some dirMaps) cwd path size = some r) :
    ∃ m, r = hostPath (absPath cwd path) m ∧
      IsFirstMax (rank (absPath cwd path)) (mapsOf dirMaps) m ∧
        0 < rank (absPath cwd path) m := by
  rcases pathResolve_taken h.normalized with ⟨hnone, -⟩ | ⟨m, hmax, hpos, heq⟩
  · rw [hr] at hnone
    cases hnone
  · have houtput := h.output m hmax
    rw [join_common _ m hpos] at houtput
    rw [hr, inBuffer_of_lt houtput] at heq
    split at heq
    · cases heq
    · exact ⟨m, Option.some.inj heq, hmax, hpos⟩

end LfiRuntime.Path
