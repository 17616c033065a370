import LfiRuntime.Linux.Cwalk

/-!
`path.c`: which host path a path of the sandbox is resolved to, and the working
directory of a process (`proc_chdir`).
-/

namespace LfiRuntime.Path

open LfiRuntime.Cwalk

def FILENAME_MAX : Nat := 4096

/-- `strchr`. -/
def strchr (s : Str) (c : Char) : Option Nat := s.findIdx? (· = c)

/-- A directory mapping that has been taken apart: `box_dir`, and what `host_dir`
points to. -/
structure DirMap where
  boxDir : Str
  hostDir : Str
deriving DecidableEq, Repr

/-- One of the strings of `dir_maps`. -/
def parseDirMap (map : Str) : Option DirMap :=
  (strchr map '=').map fun eq => ⟨map.take (min eq (FILENAME_MAX - 1)), map.drop (eq + 1)⟩

/-- The variables of the loop over the mappings. -/
structure Match where
  hostDir : Option Str
  commonMatch : Nat

def Match.none : Match := ⟨Option.none, 0⟩

/-- The loop's body for a mapping that is valid. -/
def Match.step (path : Str) (found : Match) (map : DirMap) : Match :=
  let common := getIntersection path map.boxDir
  if common > found.commonMatch then ⟨some map.hostDir, common⟩ else found

/-- The loop, where a mapping without `=` is skipped. -/
def findMatch (path : Str) (dirMaps : List Str) : Match :=
  (dirMaps.filterMap parseDirMap).foldl (Match.step path) Match.none

/-- The path that is looked up: relative paths start at `cwd`. -/
def absPath (cwd path : Str) : Str :=
  if isAbsolute path then path else inBuffer FILENAME_MAX (join cwd path)

/-- `path_resolve`, with `none` where it returns false, and the contents of `buffer`
where it returns true. -/
def pathResolve (dirMaps : Option (List Str)) (cwd path : Str) (bufferSize : Nat) : Option Str :=
  let path := inBuffer FILENAME_MAX (normalize (absPath cwd path))
  match dirMaps with
  | none => none
  | some dirMaps =>
    let found := findMatch path dirMaps
    match found.hostDir with
    | none => none
    | some hostDir =>
      if found.commonMatch ≥ bufferSize then none
      else some (inBuffer bufferSize (join hostDir (path.drop found.commonMatch)))

def LINUX_ENOENT : Int := 2

/-- `chdircheck`, with what `host_checkdir` returns for each host path: 0 for a
directory, else the negated error. -/
def chdirCheck (dirMaps : Option (List Str)) (hostCheckdir : Str → Int) (cwd path : Str) : Int :=
  match pathResolve dirMaps cwd path FILENAME_MAX with
  | none => -LINUX_ENOENT
  | some resolved => hostCheckdir resolved

/-- `proc_chdir`: its result, and the working directory after it. -/
def procChdir (dirMaps : Option (List Str)) (hostCheckdir : Str → Int) (cwd path : Str) :
    Int × Str :=
  if isAbsolute path then
    let r := chdirCheck dirMaps hostCheckdir cwd path
    if r < 0 then (r, cwd) else (0, inBuffer FILENAME_MAX path)
  else if cwd = [] then (-LINUX_ENOENT, cwd)
  else
    let joined := inBuffer FILENAME_MAX (join cwd path)
    let r := chdirCheck dirMaps hostCheckdir cwd joined
    if r < 0 then (r, cwd) else (0, inBuffer FILENAME_MAX joined)

/-- `sys_fchdir` on a descriptor with the directory string `dir`. -/
def sysFchdir (dirMaps : Option (List Str)) (hostCheckdir : Str → Int) (cwd dir : Str) :
    Int × Str :=
  procChdir dirMaps hostCheckdir cwd (inBuffer FILENAME_MAX dir)

end LfiRuntime.Path
