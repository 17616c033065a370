import Mathlib.Tactic

/-!
The ordered range map of `range_map.h`. A `std::map` is the list of its
elements in key order, and an iterator is the split of that list at its
position.
-/

namespace LfiRuntime.RangeMap

structure Entry (K V : Type) where
  start : K
  stop : K
  val : V
deriving DecidableEq, Repr

variable {K V : Type} [LinearOrder K]

/-- `std::map::insert`: an element whose key is present stays as it is. -/
def mapInsert (e : Entry K V) : List (Entry K V) → List (Entry K V)
  | [] => [e]
  | x :: xs =>
      if e.start < x.start then e :: x :: xs
      else if x.start < e.start then x :: mapInsert e xs
      else x :: xs

/-- The split at the first entry that could overlap a range starting at
`start`. -/
def overlapBegin (m : List (Entry K V)) (start : K) :
    List (Entry K V) × List (Entry K V) :=
  let before := m.takeWhile fun e => e.start < start
  let rest := m.dropWhile fun e => e.start < start
  match before.getLast? with
  | some e => if e.stop ≤ start then (before, rest) else (before.dropLast, e :: rest)
  | none => (before, rest)

/-- The erase loop of `insert` and `remove`: what stays of the tail, and the
two stubs that stick out of `[start, stop)`. -/
def carve (start stop : K) :
    List (Entry K V) → Option (Entry K V) → Option (Entry K V) →
      List (Entry K V) × Option (Entry K V) × Option (Entry K V)
  | [], left, right => ([], left, right)
  | e :: es, left, right =>
      if e.start < stop then
        carve start stop es
          (if e.start < start then some ⟨e.start, start, e.val⟩ else left)
          (if stop < e.stop then some ⟨stop, e.stop, e.val⟩ else right)
      else (e :: es, left, right)

def insertStub (m : List (Entry K V)) : Option (Entry K V) → List (Entry K V)
  | some e => mapInsert e m
  | none => m

/-- Trim, split or drop every entry that meets `[start, stop)`. -/
def remove (m : List (Entry K V)) (start stop : K) : List (Entry K V) :=
  if stop ≤ start then m
  else
    let it := overlapBegin m start
    let out := carve start stop it.2 none none
    insertStub (insertStub (it.1 ++ out.1) out.2.1) out.2.2

/-- Merge the entry with key `start` with its right and then its left
neighbor, where they touch and carry equal values. -/
def coalesce [DecidableEq V] (m : List (Entry K V)) (start : K) : List (Entry K V) :=
  let before := m.takeWhile fun e => e.start < start
  match m.dropWhile fun e => e.start < start with
  | [] => m
  | it :: after =>
      let merged : Entry K V × List (Entry K V) :=
        match after with
        | right :: rest =>
            if it.stop = right.start ∧ it.val = right.val then
              ({ it with stop := right.stop }, rest)
            else (it, after)
        | [] => (it, after)
      match before.getLast? with
      | some left =>
          if left.stop = merged.1.start ∧ left.val = merged.1.val then
            before.dropLast ++ { left with stop := merged.1.stop } :: merged.2
          else before ++ merged.1 :: merged.2
      | none => merged.1 :: merged.2

def insert [DecidableEq V] (m : List (Entry K V)) (start stop : K) (val : V) :
    List (Entry K V) :=
  if stop ≤ start then m
  else coalesce (mapInsert ⟨start, stop, val⟩ (remove m start stop)) start

/-- The entry containing the point `key`. -/
def find (m : List (Entry K V)) (key : K) : Option (Entry K V) :=
  match (m.takeWhile fun e => e.start ≤ key).getLast? with
  | some e => if key < e.stop then some e else none
  | none => none

def overlaps (m : List (Entry K V)) (start stop : K) : Bool :=
  if stop ≤ start then false
  else
    match (overlapBegin m start).2 with
    | e :: _ => e.start < stop
    | [] => false

def getOverlapping (m : List (Entry K V)) (start stop : K) : List (Entry K V) :=
  if stop ≤ start then []
  else (overlapBegin m start).2.takeWhile fun e => e.start < stop

/-- The loop of `get_gaps` from the cursor on. -/
def gapsFrom (stop : K) : K → List (Entry K V) → List (K × K)
  | cursor, [] => if cursor < stop then [(cursor, stop)] else []
  | cursor, e :: es =>
      if e.start < stop then
        (if cursor < e.start then [(cursor, e.start)] else []) ++
          gapsFrom stop (if cursor < e.stop then e.stop else cursor) es
      else if cursor < stop then [(cursor, stop)] else []

/-- The unmapped sub-ranges of `[start, stop)`. -/
def getGaps (m : List (Entry K V)) (start stop : K) : List (K × K) :=
  if stop ≤ start then []
  else gapsFrom stop start (overlapBegin m start).2

end LfiRuntime.RangeMap
