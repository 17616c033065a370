import LfiRuntime.Lib.PathNormal

/-!
The functions of `cwalk.c` that the path resolution uses, in the Unix style. The
ones that write into a buffer are given with the whole of their output: see
`inBuffer` for what the buffer holds.
-/

namespace LfiRuntime.Cwalk

open LfiRuntime.PathNormal

/-- A C string, by the characters before its terminator. -/
abbrev Str := List Char

/-- A `struct cwk_segment`: its characters, and the offset of its end. -/
structure Segment where
  text : Str
  stop : Nat
deriving DecidableEq, Repr

def isSeparator (c : Char) : Bool := c = '/'

/-- The segments of a path from the offset `pos`, where `cur` has been read of the
first one, last character first. -/
def segmentsFrom (pos : Nat) (cur : Str) : Str → List Segment
  | [] => if cur = [] then [] else [⟨cur.reverse, pos⟩]
  | c :: path =>
    if isSeparator c then
      if cur = [] then segmentsFrom (pos + 1) [] path
      else ⟨cur.reverse, pos⟩ :: segmentsFrom (pos + 1) [] path
    else segmentsFrom (pos + 1) (c :: cur) path

/-- `cwk_path_get_first_segment` and `cwk_path_get_next_segment`. They step over
separators, and so over the root. -/
def segments (path : Str) : List Segment := segmentsFrom 0 [] path

def textType (text : Str) : Kind :=
  if text = ['.'] then .current else if text = ['.', '.'] then .back else .normal

/-- `cwk_path_get_segment_type`. -/
def segmentType (s : Segment) : Kind := textType s.text

/-- `cwk_path_get_root`: the length of the root. -/
def getRoot : Str → Nat
  | [] => 0
  | c :: _ => if isSeparator c then 1 else 0

/-- `cwk_path_is_absolute`. -/
def isAbsolute (path : Str) : Bool := getRoot path ≠ 0

/-- `cwk_path_segment_back_will_be_removed`, on the segments before, nearest first. -/
def segmentBackWillBeRemoved (counter : Int) : List Segment → Bool
  | [] => false
  | s :: prev =>
    match segmentType s with
    | .normal => if counter + 1 > 0 then true else segmentBackWillBeRemoved (counter + 1) prev
    | .back => segmentBackWillBeRemoved (counter - 1) prev
    | .current => segmentBackWillBeRemoved counter prev

/-- `cwk_path_segment_normal_will_be_removed`, on the segments after. -/
def segmentNormalWillBeRemoved (counter : Int) : List Segment → Bool
  | [] => false
  | s :: next =>
    match segmentType s with
    | .normal => segmentNormalWillBeRemoved (counter + 1) next
    | .back => if counter - 1 < 0 then true else segmentNormalWillBeRemoved (counter - 1) next
    | .current => segmentNormalWillBeRemoved counter next

/-- `cwk_path_segment_will_be_removed`. -/
def segmentWillBeRemoved (absolute : Bool) (prev : List Segment) (s : Segment)
    (next : List Segment) : Bool :=
  match segmentType s with
  | .current => true
  | .back => absolute || segmentBackWillBeRemoved 0 prev
  | .normal => segmentNormalWillBeRemoved 0 next

/-- The segments that a loop over all of them does not skip. -/
def visibleFrom (absolute : Bool) (prev : List Segment) : List Segment → List Segment
  | [] => []
  | s :: next =>
    if segmentWillBeRemoved absolute prev s next then visibleFrom absolute (s :: prev) next
    else s :: visibleFrom absolute (s :: prev) next

def visible (absolute : Bool) (segs : List Segment) : List Segment := visibleFrom absolute [] segs

/-- `cwk_path_join_and_normalize_multiple` on `path` and the paths after it. -/
def joinAndNormalizeMultiple (path : Str) (paths : List Str) : Str :=
  let root := path.take (getRoot path)
  let segs := segments path ++ paths.flatMap segments
  if segs = [] then root
  else
    let output := visible (isAbsolute path) segs
    if output = [] ∧ root = [] then ['.']
    else root ++ ['/'].intercalate (output.map Segment.text)

/-- `cwk_path_normalize`. -/
def normalize (path : Str) : Str := joinAndNormalizeMultiple path []

/-- `cwk_path_join`. -/
def join (a b : Str) : Str := joinAndNormalizeMultiple a [b]

/-- What a buffer of `size` bytes holds after `cwk_path_terminate_output`, or after
a `strncpy` of all but its last byte. -/
def inBuffer (size : Nat) (output : Str) : Str := output.take (size - 1)

/-- The end of the last segment that two paths have in common. -/
def commonEnd (stop : Nat) : List Segment → List Segment → Nat
  | b :: base, o :: other => if b.text = o.text then commonEnd b.stop base other else stop
  | _, _ => stop

/-- `cwk_path_get_intersection`. -/
def getIntersection (base other : Str) : Nat :=
  let root := getRoot base
  if root ≠ getRoot other then 0
  else if segments base = [] ∨ segments other = [] then root
  else
    let absolute := isAbsolute base
    commonEnd root (visible absolute (segments base)) (visible absolute (segments other))

example : normalize "/a/./b//../../../c/".toList = "/c".toList := by decide

example : join "x/..".toList "../y".toList = "../y".toList := by decide

example : getIntersection "/usr/lib".toList "/usr/local/../share/".toList = 4 := by decide

end LfiRuntime.Cwalk
