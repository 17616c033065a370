import Mathlib.Data.List.Nodup
import LfiRuntime.Linux.PathSpec

/-!
When an absolute path is resolved through its longest mapped ancestor. The code
takes the mapping that shares the most leading segments with the path, and does
not ask whether the mapping's directory is among its ancestors.
-/

namespace LfiRuntime.Path

open LfiRuntime.Cwalk
open LfiRuntime.FirstMax
open LfiRuntime.PathNormal

/-- A mapping of an absolute directory of the sandbox. -/
structure Mapping where
  boxDir : Str
  hostDir : Str
  absolute : isAbsolute boxDir = true
  plain : '=' ∉ boxDir
  short : boxDir.length < FILENAME_MAX

namespace Mapping

/-- As it is written in `dir_maps`. -/
def string (m : Mapping) : Str := m.boxDir ++ '=' :: m.hostDir

def names (m : Mapping) : List Str := normalForm m.boxDir

def IsAncestor (m : Mapping) (path : Str) : Prop := m.names <+: normalForm path

/-- The host directory joined with what the path has behind its first `k` segments. -/
def place (m : Mapping) (path : Str) (k : Nat) : Str :=
  join m.hostDir (['/'].intercalate ((normalForm path).drop k))

def toDirMap (m : Mapping) : DirMap := ⟨m.boxDir, m.hostDir⟩

end Mapping

def LongestAncestor (ms : List Mapping) (path : Str) (a : Mapping) : Prop :=
  a ∈ ms ∧ a.IsAncestor path ∧ ∀ b ∈ ms, b.IsAncestor path → b.names.length ≤ a.names.length

def resolve (ms : List Mapping) (cwd path : Str) (size : Nat) : Option Str :=
  pathResolve (some (ms.map Mapping.string)) cwd path size

/-- The path is found exactly if a mapping is an ancestor of it, and then through
the longest one. -/
def FollowsLongest (ms : List Mapping) (cwd path : Str) (size : Nat) : Prop :=
  ((resolve ms cwd path size).isSome ↔ ∃ m ∈ ms, m.IsAncestor path) ∧
    ∀ r, resolve ms cwd path size = some r →
      ∃ a, LongestAncestor ms path a ∧ r = a.place path a.names.length

/-- The first of the mappings that share the most leading segments with the path is
an ancestor of it, or puts it where the longest ancestor does. -/
def FirstIsAncestor (ms : List Mapping) (path : Str) : Prop :=
  ∀ m, IsFirstMax (fun m => shared (normalForm path) m.names) ms m → m.IsAncestor path ∨
    ∃ a, LongestAncestor ms path a ∧
      m.place path (shared (normalForm path) m.names) = a.place path a.names.length

variable {ms ms' : List Mapping} {m a b : Mapping} {cwd path : Str} {size : Nat}

theorem strchr_string (m : Mapping) : strchr m.string '=' = some m.boxDir.length := by
  have hnone : m.boxDir.findIdx? (· = '=') = none := by
    rw [List.findIdx?_eq_none_iff]
    intro c hc
    exact decide_eq_false fun heq => m.plain (heq ▸ hc)
  rw [strchr, Mapping.string, List.findIdx?_append, hnone]
  simp [List.findIdx?_cons]

theorem parse_string (m : Mapping) : parseDirMap m.string = some m.toDirMap := by
  rw [parseDirMap, strchr_string, Option.map_some, Mapping.string]
  have hshort := m.short
  simp only [FILENAME_MAX] at hshort ⊢
  rw [Nat.min_eq_left (by omega), List.take_left', List.drop_append]
  · simp [Mapping.toDirMap]
  · rfl

theorem mapsOf_string (ms : List Mapping) :
    mapsOf (ms.map Mapping.string) = ms.map Mapping.toDirMap := by
  rw [mapsOf, List.filterMap_map, ← List.filterMap_eq_map]
  congr 1
  funext m
  exact parse_string m

theorem hostPath_eq (habs : isAbsolute path = true) (m : Mapping) :
    hostPath path m.toDirMap = m.place path (shared (normalForm path) m.names) := by
  have hclean : ∀ t ∈ (normalForm path).drop (shared (normalForm path) m.names), Clean t :=
    fun t ht => texts_clean t (mem_reduce (List.mem_of_mem_drop ht))
  have hroot : isAbsolute path = isAbsolute m.toDirMap.boxDir := habs.trans m.absolute.symm
  rw [hostPath, Mapping.place, join_eq, texts_intercalate hclean, sharedWith, if_pos hroot]
  rfl

theorem rank_eq (habs : isAbsolute path = true) (m : Mapping) :
    rank path m.toDirMap = 1 + shared (normalForm path) m.names := by
  have hroot : isAbsolute path = isAbsolute m.toDirMap.boxDir := habs.trans m.absolute.symm
  rw [rank, if_pos hroot, if_pos habs]
  rfl

/-- What `path_resolve` does with an absolute path. -/
theorem resolve_cases (habs : isAbsolute path = true)
    (hfits : Fits (ms.map Mapping.string) cwd path size) :
    (resolve ms cwd path size = none ∧ ms = []) ∨
      ∃ m, resolve ms cwd path size =
          some (m.place path (shared (normalForm path) m.names)) ∧
        IsFirstMax (fun m => shared (normalForm path) m.names) ms m := by
  have hpath : absPath cwd path = path := if_pos habs
  rcases pathResolve_cases hfits with ⟨hnone, hzero⟩ | ⟨d, hsome, hmax, -⟩
  · left
    refine ⟨hnone, List.eq_nil_iff_forall_not_mem.mpr fun m hm => ?_⟩
    have hrank := hzero m.toDirMap (by
      rw [mapsOf_string]
      exact List.mem_map_of_mem hm)
    rw [hpath, rank_eq habs] at hrank
    omega
  · right
    rw [hpath, mapsOf_string] at hmax
    obtain ⟨m, rfl, hfirst⟩ := hmax.of_map
    refine ⟨m, ?_, hfirst.congr ?_ ?_⟩
    · rw [resolve, hsome, hpath, hostPath_eq habs]
    · intro a _ b _ hlt
      simp only [Function.comp_apply, rank_eq habs] at hlt
      omega
    · intro a _ b _ hle
      simp only [Function.comp_apply, rank_eq habs] at hle
      omega

/-- A mapping that is an ancestor shares all of its segments. -/
theorem shared_of_ancestor (h : m.IsAncestor path) :
    shared (normalForm path) m.names = m.names.length :=
  (shared_eq_length_iff _ _).mpr h

theorem longest_of_first (h : m.IsAncestor path)
    (hmax : IsFirstMax (fun m => shared (normalForm path) m.names) ms m) :
    LongestAncestor ms path m := by
  refine ⟨hmax.mem, h, fun b hb hanc => ?_⟩
  have hle := hmax.le hb
  simp only [shared_of_ancestor h, shared_of_ancestor hanc] at hle
  exact hle

theorem followsLongest_iff (habs : isAbsolute path = true)
    (hfits : Fits (ms.map Mapping.string) cwd path size) :
    FollowsLongest ms cwd path size ↔ FirstIsAncestor ms path := by
  rcases resolve_cases habs hfits with ⟨hnone, rfl⟩ | ⟨m, hsome, hmax⟩
  · constructor
    · intro _ m hm
      exact absurd hm.mem (by simp)
    · intro _
      simp [FollowsLongest, hnone]
  · constructor
    · rintro ⟨-, hfollows⟩ m' hmax'
      obtain rfl := hmax.unique hmax'
      exact .inr (hfollows _ hsome)
    · intro hfirst
      have hplace : ∃ a, LongestAncestor ms path a ∧
          m.place path (shared (normalForm path) m.names) = a.place path a.names.length := by
        rcases hfirst m hmax with hanc | hplace
        · exact ⟨m, longest_of_first hanc hmax, by rw [shared_of_ancestor hanc]⟩
        · exact hplace
      obtain ⟨a, ha, heq⟩ := hplace
      constructor
      · rw [hsome]
        exact iff_of_true rfl ⟨a, ha.1, ha.2.1⟩
      · intro r hr
        rw [hsome] at hr
        exact ⟨a, ha, (Option.some.inj hr).symm.trans heq⟩

theorem LongestAncestor.perm (hperm : ms'.Perm ms) (h : LongestAncestor ms' path a) :
    LongestAncestor ms path a :=
  ⟨hperm.subset h.1, h.2.1, fun b hb => h.2.2 b (hperm.symm.subset hb)⟩

/-- Of distinct directories one is the longest ancestor. -/
theorem LongestAncestor.unique (hnodup : (ms.map Mapping.names).Nodup)
    (ha : LongestAncestor ms path a) (hb : LongestAncestor ms path b) : a = b := by
  have hnames : a.names = b.names := by
    have hlen := Nat.le_antisymm (hb.2.2 a ha.1 ha.2.1) (ha.2.2 b hb.1 hb.2.1)
    exact (List.prefix_of_prefix_length_le ha.2.1 hb.2.1 hlen.le).eq_of_length hlen
  exact List.inj_on_of_nodup_map hnodup ha.1 hb.1 hnames

/-- Where paths follow their longest ancestors the order of the mappings is
irrelevant. -/
theorem resolve_perm (hperm : ms'.Perm ms) (hnodup : (ms.map Mapping.names).Nodup)
    (h : FollowsLongest ms cwd path size) (h' : FollowsLongest ms' cwd path size) :
    resolve ms' cwd path size = resolve ms cwd path size := by
  have hsome : (resolve ms' cwd path size).isSome ↔ (resolve ms cwd path size).isSome := by
    rw [h.1, h'.1]
    constructor
    · rintro ⟨m, hm, hanc⟩
      exact ⟨m, hperm.subset hm, hanc⟩
    · rintro ⟨m, hm, hanc⟩
      exact ⟨m, hperm.symm.subset hm, hanc⟩
  cases hr : resolve ms cwd path size with
  | none =>
      rw [hr] at hsome
      simpa using hsome
  | some r =>
      rw [hr] at hsome
      obtain ⟨r', hr'⟩ := Option.isSome_iff_exists.mp (hsome.mpr rfl)
      obtain ⟨a, ha, rfl⟩ := h.2 r hr
      obtain ⟨b, hb, rfl⟩ := h'.2 r' hr'
      rw [hr', ha.unique hnodup (hb.perm hperm)]

/-- An absolute path is resolved through its longest mapped ancestor exactly where
the first mapping that shares the most segments is an ancestor, or happens to
agree with one; and then in any order of the mappings. -/
theorem resolve_longest_iff (habs : isAbsolute path = true)
    (hfits : Fits (ms.map Mapping.string) cwd path size) :
    (FollowsLongest ms cwd path size ↔ FirstIsAncestor ms path) ∧
      ∀ ms', ms'.Perm ms → (ms.map Mapping.names).Nodup → FollowsLongest ms cwd path size →
        FollowsLongest ms' cwd path size →
          resolve ms' cwd path size = resolve ms cwd path size :=
  ⟨followsLongest_iff habs hfits, fun _ hperm hnodup h h' => resolve_perm hperm hnodup h h'⟩

instance (path : Str) : Decidable (m.IsAncestor path) :=
  inferInstanceAs (Decidable (_ <+: _))

def sysroot : Mapping := ⟨"/".toList, "/sysroot".toList, by decide, by decide, by decide⟩

def work : Mapping := ⟨"/work".toList, "/home/work/".toList, by decide, by decide, by decide⟩

def workFile : Str := "/work/./a/../file".toList

theorem fits_workFile :
    Fits ([sysroot, work].map Mapping.string) [] workFile FILENAME_MAX := by
  refine ⟨?_, ?_, ?_, ?_⟩ <;> decide

theorem workFile_followsLongest : FollowsLongest [sysroot, work] [] workFile FILENAME_MAX := by
  refine (resolve_longest_iff rfl fits_workFile).1.mpr fun m hmax => ?_
  rcases List.mem_cons.mp hmax.mem with rfl | hm
  · exact absurd (hmax.le (a := work) (by simp)) (by decide)
  · obtain rfl := List.mem_singleton.mp hm
    exact .inl (by decide)

def data : Mapping := ⟨"/data".toList, "/host".toList, by decide, by decide, by decide⟩

def etcPasswd : Str := "/etc/passwd".toList

/-- A path that is in no mapped directory is found in the one that is mapped. -/
theorem etcPasswd_not_followsLongest :
    Fits ([data].map Mapping.string) [] etcPasswd FILENAME_MAX ∧
      resolve [data] [] etcPasswd FILENAME_MAX = some "/host/etc/passwd".toList ∧
      ¬FollowsLongest [data] [] etcPasswd FILENAME_MAX := by
  refine ⟨⟨?_, ?_, ?_, ?_⟩, ?_, ?_⟩
  case refine_6 =>
    rintro ⟨hiff, -⟩
    obtain ⟨m, hm, hanc⟩ := hiff.mp (by decide)
    obtain rfl := List.mem_singleton.mp hm
    exact absurd hanc (by decide)
  all_goals decide

end LfiRuntime.Path
