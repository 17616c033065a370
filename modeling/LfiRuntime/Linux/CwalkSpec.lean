import Mathlib.Order.Nat
import LfiRuntime.Linux.Cwalk

/-!
What the functions of `cwalk.c` do, in terms of the segments of their arguments:
looking around for the segments that cancel each other is the normal form.
-/

namespace LfiRuntime.Cwalk

open LfiRuntime.PathNormal

variable {absolute : Bool} {prev next segs : List Segment} {s : Segment} {path : Str} {pos k : Nat}
  {cur : Str}

/-! The two removal tests. -/

/-- How many names are on top of the stack after these segments, nearest first. -/
def namesOnTop : List Segment → Nat
  | [] => 0
  | s :: prev =>
    match segmentType s with
    | .normal => namesOnTop prev + 1
    | .back => namesOnTop prev - 1
    | .current => namesOnTop prev

/-- How many names these segments take from a stack. -/
def namesTaken : List Segment → Nat
  | [] => 0
  | s :: next =>
    match segmentType s with
    | .normal => namesTaken next - 1
    | .back => namesTaken next + 1
    | .current => namesTaken next

theorem segmentBackWillBeRemoved_iff (k : Nat) :
    segmentBackWillBeRemoved (-k) prev = true ↔ k < namesOnTop prev := by
  induction prev generalizing k with
  | nil => simp [segmentBackWillBeRemoved, namesOnTop]
  | cons s prev ih =>
      cases hs : segmentType s with
      | current => simp only [segmentBackWillBeRemoved, namesOnTop, hs, ih]
      | normal =>
          simp only [segmentBackWillBeRemoved, namesOnTop, hs]
          cases k with
          | zero => simp
          | succ k =>
              rw [if_neg (by omega), show -((k + 1 : Nat) : Int) + 1 = -(k : Int) by omega, ih]
              omega
      | back =>
          simp only [segmentBackWillBeRemoved, namesOnTop, hs]
          rw [show -(k : Int) - 1 = -((k + 1 : Nat) : Int) by omega, ih]
          omega

theorem segmentNormalWillBeRemoved_iff (k : Nat) :
    segmentNormalWillBeRemoved k next = true ↔ k < namesTaken next := by
  induction next generalizing k with
  | nil => simp [segmentNormalWillBeRemoved, namesTaken]
  | cons s next ih =>
      cases hs : segmentType s with
      | current => simp only [segmentNormalWillBeRemoved, namesTaken, hs, ih]
      | back =>
          simp only [segmentNormalWillBeRemoved, namesTaken, hs]
          cases k with
          | zero => simp
          | succ k =>
              rw [if_neg (by omega), show ((k + 1 : Nat) : Int) - 1 = (k : Int) by omega, ih]
              omega
      | normal =>
          simp only [segmentNormalWillBeRemoved, namesTaken, hs]
          rw [show (k : Int) + 1 = ((k + 1 : Nat) : Int) by omega, ih]
          omega

/-- The names on top of a stack. -/
def topNames (out : List Segment) : List Segment :=
  out.takeWhile fun s => segmentType s = .normal

/-- `k` names less, as far as there are any. -/
def dropNames (k : Nat) : List Segment → List Segment
  | [] => []
  | s :: out => if k = 0 ∨ segmentType s ≠ .normal then s :: out else dropNames (k - 1) out

variable {out : List Segment} {p : Segment}

theorem dropNames_zero : dropNames 0 out = out := by
  cases out <;> simp [dropNames]

theorem dropNames_normal (hp : segmentType p = .normal) :
    dropNames (k + 1) (p :: out) = dropNames k out := by
  simp [dropNames, hp]

theorem dropNames_climbing (hout : ∀ p ∈ out.head?, segmentType p ≠ .normal) :
    dropNames k out = out := by
  cases out with
  | nil => rfl
  | cons p out => simp [dropNames, hout p rfl]

theorem topNames_climbing (hout : ∀ p ∈ out.head?, segmentType p ≠ .normal) :
    topNames out = [] := by
  cases out with
  | nil => rfl
  | cons p out => simp [topNames, hout p rfl]

/-- The loop and the stack: what the loop shows of the rest, on what the rest
leaves of the stack. -/
theorem foldl_push_visible (h : namesOnTop prev = (topNames out).length) :
    next.foldl (push segmentType absolute) out =
      (visibleFrom absolute prev next).reverse ++ dropNames (namesTaken next) out := by
  induction next generalizing prev out with
  | nil => simp [visibleFrom, namesTaken, dropNames_zero]
  | cons s next ih =>
      rw [List.foldl_cons, visibleFrom]
      cases hs : segmentType s with
      | current =>
          have hprev : namesOnTop (s :: prev) = (topNames out).length := by
            simpa [namesOnTop, hs] using h
          rw [push_current hs, ih hprev]
          simp [segmentWillBeRemoved, namesTaken, hs]
      | normal =>
          have hprev : namesOnTop (s :: prev) = (topNames (s :: out)).length := by
            simpa [namesOnTop, topNames, hs] using h
          have hremoved := @segmentNormalWillBeRemoved_iff next 0
          rw [push_normal hs, ih hprev]
          cases htaken : namesTaken next with
          | zero =>
              have hkept : segmentNormalWillBeRemoved 0 next = false := by
                simpa [htaken] using hremoved
              simp [segmentWillBeRemoved, namesTaken, hs, hkept, htaken, dropNames_zero]
          | succ k =>
              have hgone : segmentNormalWillBeRemoved 0 next = true := by
                simpa [htaken] using hremoved
              simp [segmentWillBeRemoved, namesTaken, hs, hgone, htaken, dropNames_normal hs]
      | back =>
          have hremoved := @segmentBackWillBeRemoved_iff prev 0
          by_cases hout : ∀ p ∈ out.head?, segmentType p ≠ .normal
          · have htop : namesOnTop prev = 0 := by rw [h, topNames_climbing hout, List.length_nil]
            have hkept : segmentBackWillBeRemoved 0 prev = false := by
              simpa [htop] using hremoved
            rw [push_back_climbing hs hout, dropNames_climbing hout]
            cases absolute with
            | true =>
                have hprev : namesOnTop (s :: prev) = (topNames out).length := by
                  simp [namesOnTop, hs, htop, topNames_climbing hout]
                rw [if_pos rfl, ih hprev, dropNames_climbing hout]
                simp [segmentWillBeRemoved, hs]
            | false =>
                have hs' : ∀ p ∈ (s :: out).head?, segmentType p ≠ .normal := by
                  rintro _ ⟨⟩
                  simp [hs]
                have hprev : namesOnTop (s :: prev) = (topNames (s :: out)).length := by
                  simp [namesOnTop, hs, htop, topNames_climbing hs']
                rw [if_neg Bool.false_ne_true, ih hprev, dropNames_climbing hs']
                simp [segmentWillBeRemoved, hs, hkept]
          · -- a name on top: the segment before it in the path is removed with it
            obtain ⟨p, hp, hnormal⟩ : ∃ p ∈ out.head?, segmentType p = .normal := by
              simpa only [not_forall, not_not, exists_prop] using hout
            obtain ⟨rest, rfl⟩ : ∃ rest, out = p :: rest := by
              cases out with
              | nil => cases hp
              | cons q rest => exact ⟨rest, by rw [Option.some.inj hp]⟩
            have htop : namesOnTop prev = (topNames rest).length + 1 := by
              rw [h, topNames, List.takeWhile_cons_of_pos (by simpa using hnormal), List.length_cons]
              rfl
            have hgone : segmentBackWillBeRemoved 0 prev = true := by
              simpa [htop] using hremoved
            have hprev : namesOnTop (s :: prev) = (topNames rest).length := by
              simp [namesOnTop, hs, htop]
            rw [push_back_normal hs hnormal, ih hprev]
            simp [segmentWillBeRemoved, namesTaken, hs, hgone, dropNames_normal hnormal]

theorem visible_eq_reduce : visible absolute segs = reduce segmentType absolute segs := by
  have hfold := @foldl_push_visible absolute [] segs [] rfl
  rw [reduce, hfold]
  simp [visible, dropNames]

/-! The names of the segments. -/

def texts (path : Str) : List Str := (segments path).map Segment.text

/-- A segment is not empty and has no separator. -/
def Clean (t : Str) : Prop := t ≠ [] ∧ ∀ c ∈ t, isSeparator c = false

variable {a b t : Str} {ts : List Str} {c : Char} {pos' : Nat}

theorem segmentsFrom_texts (pos pos' : Nat) (cur path : Str) :
    (segmentsFrom pos cur path).map Segment.text =
      (segmentsFrom pos' cur path).map Segment.text := by
  induction path generalizing pos pos' cur with
  | nil => cases cur <;> simp [segmentsFrom]
  | cons c path ih =>
      unfold segmentsFrom
      split
      · split
        · exact ih _ _ _
        · rw [List.map_cons, List.map_cons, ih (pos + 1) (pos' + 1)]
      · exact ih _ _ _

theorem texts_separator (hc : isSeparator c = true) : texts (c :: path) = texts path := by
  rw [texts, segments, segmentsFrom, if_pos hc, if_pos rfl]
  exact segmentsFrom_texts _ _ _ _

/-- A path that is cut at a separator. -/
theorem segmentsFrom_append (hc : isSeparator c = true) :
    (segmentsFrom pos cur (a ++ c :: b)).map Segment.text =
      (segmentsFrom pos cur a).map Segment.text ++ texts b := by
  induction a generalizing pos cur with
  | nil =>
      by_cases hcur : cur = []
      · subst hcur
        simp only [List.nil_append, segmentsFrom, hc, if_true, List.map_nil]
        exact segmentsFrom_texts _ _ _ _
      · simp only [List.nil_append, segmentsFrom, hc, hcur, if_true, if_false, List.map_cons,
          List.map_nil, List.singleton_append]
        rw [texts, segments, segmentsFrom_texts (pos + 1) 0]
  | cons d a ih =>
      rw [List.cons_append]
      unfold segmentsFrom
      split
      · split
        · exact ih
        · rw [List.map_cons, List.map_cons, ih, List.cons_append]
      · exact ih

theorem texts_append (hc : isSeparator c = true) : texts (a ++ c :: b) = texts a ++ texts b :=
  segmentsFrom_append hc

theorem segmentsFrom_word (ht : ∀ c ∈ t, isSeparator c = false) (hne : cur ≠ [] ∨ t ≠ []) :
    (segmentsFrom pos cur t).map Segment.text = [cur.reverse ++ t] := by
  induction t generalizing pos cur with
  | nil =>
      have hcur : cur ≠ [] := hne.resolve_right (by simp)
      simp [segmentsFrom, hcur]
  | cons c t ih =>
      have hc : isSeparator c = false := ht c List.mem_cons_self
      simp only [segmentsFrom, hc, Bool.false_eq_true, if_false]
      rw [ih (fun d hd => ht d (List.mem_cons_of_mem _ hd)) (.inl (by simp))]
      simp

theorem texts_word (ht : Clean t) : texts t = [t] := by
  have hword := @segmentsFrom_word 0 [] _ ht.2 (.inr ht.1)
  simpa [texts, segments] using hword

theorem texts_intercalate (hts : ∀ t ∈ ts, Clean t) : texts (['/'].intercalate ts) = ts := by
  induction ts with
  | nil => rfl
  | cons t ts ih =>
      have ht : Clean t := hts t List.mem_cons_self
      cases ts with
      | nil => simpa using texts_word ht
      | cons u ts =>
          rw [List.intercalate_cons_cons, List.append_assoc, List.singleton_append,
            texts_append rfl, texts_word ht, ih fun v hv => hts v (List.mem_cons_of_mem _ hv),
            List.singleton_append]

theorem segmentsFrom_clean (hcur : ∀ c ∈ cur, isSeparator c = false) :
    ∀ t ∈ (segmentsFrom pos cur path).map Segment.text, Clean t := by
  induction path generalizing pos cur with
  | nil =>
      intro t ht
      by_cases hnil : cur = []
      · simp [segmentsFrom, hnil] at ht
      · obtain rfl : t = cur.reverse := by simpa [segmentsFrom, hnil] using ht
        exact ⟨by simpa using hnil, by simpa using hcur⟩
  | cons c path ih =>
      unfold segmentsFrom
      split
      · split
        · exact ih (by simp)
        · rename_i hnil
          intro t ht
          rcases List.mem_cons.mp ht with rfl | ht
          · exact ⟨by simpa using hnil, by simpa using hcur⟩
          · exact ih (by simp) t ht
      · rename_i hc
        apply ih
        intro d hd
        rcases List.mem_cons.mp hd with rfl | hd
        · simpa using hc
        · exact hcur d hd

theorem texts_clean : ∀ t ∈ texts path, Clean t := segmentsFrom_clean (by simp)

/-! What a join writes. -/

/-- The path with these segments, in normal form. A path with no segments at all is
written as nothing. -/
def render (absolute : Bool) (names : List Str) : Str :=
  let root := if absolute then ['/'] else []
  if names = [] then root
  else
    let output := reduce textType absolute names
    if output = [] ∧ absolute = false then ['.'] else root ++ ['/'].intercalate output

theorem take_getRoot : path.take (getRoot path) = if isAbsolute path then ['/'] else [] := by
  cases path with
  | nil => rfl
  | cons c path =>
      by_cases hc : isSeparator c = true
      · obtain rfl : c = '/' := by simpa [isSeparator] using hc
        rfl
      · simp [getRoot, isAbsolute, hc]

theorem join_multiple_eq (a : Str) (paths : List Str) :
    joinAndNormalizeMultiple a paths = render (isAbsolute a) (texts a ++ paths.flatMap texts) := by
  let segs := segments a ++ paths.flatMap segments
  have hsegs : segs.map Segment.text = texts a ++ paths.flatMap texts := by
    simp only [segs, List.map_append, List.map_flatMap]
    rfl
  have hnil : segs = [] ↔ texts a ++ paths.flatMap texts = [] := by
    rw [← hsegs, List.map_eq_nil_iff]
  have hvisible : (visible (isAbsolute a) segs).map Segment.text =
      reduce textType (isAbsolute a) (texts a ++ paths.flatMap texts) := by
    rw [visible_eq_reduce, ← hsegs, reduce_map]
    rfl
  have hempty : visible (isAbsolute a) segs = [] ↔
      reduce textType (isAbsolute a) (texts a ++ paths.flatMap texts) = [] := by
    rw [← hvisible, List.map_eq_nil_iff]
  unfold joinAndNormalizeMultiple render
  simp only [take_getRoot]
  rw [show segments a ++ paths.flatMap segments = segs from rfl]
  simp only [hnil, hempty, hvisible]
  cases isAbsolute a <;> simp

theorem join_eq (a b : Str) : join a b = render (isAbsolute a) (texts a ++ texts b) := by
  simp [join, join_multiple_eq]

theorem normalize_eq (a : Str) : normalize a = render (isAbsolute a) (texts a) := by
  simp [normalize, join_multiple_eq]

variable {names : List Str}

theorem intercalate_relative (hts : ∀ t ∈ ts, Clean t) :
    isAbsolute (['/'].intercalate ts) = false := by
  rcases ts with _ | ⟨_ | ⟨c, t⟩, ts⟩
  · rfl
  · exact absurd rfl (hts [] List.mem_cons_self).1
  · have hc : isSeparator c = false := (hts (c :: t) List.mem_cons_self).2 c List.mem_cons_self
    cases ts <;> simp [List.intercalate_cons_cons, isAbsolute, getRoot, hc]

theorem isAbsolute_render (hnames : ∀ t ∈ names, Clean t) :
    isAbsolute (render absolute names) = absolute := by
  have hclean : ∀ t ∈ reduce textType absolute names, Clean t := fun t ht => hnames t (mem_reduce ht)
  unfold render
  cases absolute with
  | true =>
      simp only [if_true, Bool.true_eq_false, and_false, if_false]
      split <;> rfl
  | false =>
      simp only [Bool.false_eq_true, if_false, and_true, List.nil_append]
      split
      · rfl
      · split
        · rfl
        · exact intercalate_relative hclean

/-- The segments of what is written: those of the normal form, but for the `.` that
stands for none. -/
theorem texts_render (hnames : ∀ t ∈ names, Clean t) :
    texts (render absolute names) = reduce textType absolute names ∨
      (absolute = false ∧ reduce textType absolute names = [] ∧
        texts (render absolute names) = [['.']]) := by
  have hclean : ∀ t ∈ reduce textType absolute names, Clean t := fun t ht => hnames t (mem_reduce ht)
  unfold render
  cases absolute with
  | true =>
      left
      simp only [if_true, Bool.true_eq_false, and_false, if_false]
      split
      · rename_i hnil
        rw [hnil]
        rfl
      · exact (texts_separator rfl).trans (texts_intercalate hclean)
  | false =>
      simp only [Bool.false_eq_true, if_false, and_true, List.nil_append, true_and]
      split
      · rename_i hnil
        rw [hnil]
        exact .inl rfl
      · split
        · rename_i hout
          exact .inr ⟨hout, rfl⟩
        · exact .inl (texts_intercalate hclean)

/-- The segments of a path in normal form. -/
def normalForm (path : Str) : List Str := reduce textType (isAbsolute path) (texts path)

theorem normalForm_render (hnames : ∀ t ∈ names, Clean t) :
    normalForm (render absolute names) = reduce textType absolute names := by
  rw [normalForm, isAbsolute_render hnames]
  have hrender := @texts_render absolute _ hnames
  rcases hrender with h | ⟨-, hnil, h⟩
  · rw [h, reduce_of_reduced reduce_reduced]
  · rw [h, hnil]
    rfl

/-! The intersection of two paths, and what is left after it. -/

/-- How many segments two paths begin with in common. -/
def shared : List Str → List Str → Nat
  | a :: as, b :: bs => if a = b then shared as bs + 1 else 0
  | _, _ => 0

theorem shared_le_left (as bs : List Str) : shared as bs ≤ as.length := by
  induction as generalizing bs with
  | nil => simp [shared]
  | cons a as ih =>
      cases bs with
      | nil => simp [shared]
      | cons b bs =>
          unfold shared
          split
          · exact Nat.succ_le_succ (ih bs)
          · exact Nat.zero_le _

theorem shared_eq_length_iff (as bs : List Str) : shared as bs = bs.length ↔ bs <+: as := by
  induction as generalizing bs with
  | nil => cases bs <;> simp [shared]
  | cons a as ih =>
      cases bs with
      | nil => simp [shared]
      | cons b bs =>
          unfold shared
          split
          · rename_i heq
            rw [List.cons_prefix_cons, List.length_cons, Nat.succ_inj, ih, eq_comm (a := b)]
            simp [heq]
          · rename_i hne
            simp [List.cons_prefix_cons, eq_comm (a := b), hne]

/-- Where the first `k` segments end, the root at `stop`. -/
def endOf (stop : Nat) : List Segment → Nat → Nat
  | s :: segs, k + 1 => endOf s.stop segs k
  | _, _ => stop

theorem endOf_zero (stop : Nat) (segs : List Segment) : endOf stop segs 0 = stop := by
  cases segs <;> rfl

theorem commonEnd_eq (stop : Nat) (base other : List Segment) :
    commonEnd stop base other =
      endOf stop base (shared (base.map Segment.text) (other.map Segment.text)) := by
  induction base generalizing stop other with
  | nil => simp [commonEnd, shared, endOf]
  | cons b base ih =>
      cases other with
      | nil => simp [commonEnd, shared, endOf]
      | cons o other =>
          simp only [commonEnd, List.map_cons, shared]
          split
          · rw [ih, endOf]
          · rw [endOf_zero]

/-- The ends of the segments ascend from `stop`. -/
def Ascending (stop : Nat) : List Segment → Prop
  | [] => True
  | s :: segs => stop < s.stop ∧ Ascending s.stop segs

theorem le_endOf {stop : Nat} (h : Ascending stop segs) (k : Nat) : stop ≤ endOf stop segs k := by
  induction segs generalizing stop k with
  | nil => simp [endOf]
  | cons s segs ih =>
      cases k with
      | zero => simp [endOf]
      | succ k => exact (Nat.le_of_lt h.1).trans (ih h.2 k)

theorem endOf_lt {stop j k : Nat} (h : Ascending stop segs) (hjk : j < k) (hk : k ≤ segs.length) :
    endOf stop segs j < endOf stop segs k := by
  induction segs generalizing stop j k with
  | nil =>
      simp only [List.length_nil] at hk
      omega
  | cons s segs ih =>
      obtain ⟨k, rfl⟩ : ∃ i, k = i + 1 := ⟨k - 1, by omega⟩
      cases j with
      | zero => exact h.1.trans_le (le_endOf h.2 k)
      | succ j => exact ih h.2 (by omega) (by simpa using hk)

theorem segmentsFrom_ascending {stop : Nat} (hnil : cur = [] → stop ≤ pos)
    (hcons : cur ≠ [] → stop < pos) : Ascending stop (segmentsFrom pos cur path) := by
  induction path generalizing pos cur stop with
  | nil =>
      by_cases hcur : cur = []
      · simp [segmentsFrom, hcur, Ascending]
      · simpa [segmentsFrom, hcur, Ascending] using hcons hcur
  | cons c path ih =>
      unfold segmentsFrom
      split
      · split
        · rename_i hcur
          exact ih (fun _ => (hnil hcur).trans (Nat.le_succ pos)) (fun h => absurd rfl h)
        · rename_i hcur
          exact ⟨hcons hcur, ih (fun _ => Nat.le_succ pos) (fun h => absurd rfl h)⟩
      · refine ih (fun h => absurd h (by simp)) fun _ => ?_
        by_cases hcur : cur = []
        · exact Nat.lt_succ_of_le (hnil hcur)
        · exact (hcons hcur).trans (Nat.lt_succ_self pos)

theorem segments_ascending : Ascending (getRoot path) (segments path) := by
  rcases path with _ | ⟨c, path⟩
  · exact segmentsFrom_ascending (fun _ => le_refl _) fun h => absurd rfl h
  · by_cases hc : isSeparator c = true
    · simp only [getRoot, segments, segmentsFrom, hc, if_true]
      exact segmentsFrom_ascending (fun _ => le_refl _) fun h => absurd rfl h
    · simp only [getRoot, hc]
      exact segmentsFrom_ascending (fun _ => le_refl _) fun h => absurd rfl h

/-- What is left of a path behind its first `k` segments. -/
theorem texts_drop_segmentsFrom {stop : Nat} (hk : 0 < k)
    (hle : k ≤ (segmentsFrom pos cur path).length) :
    pos ≤ endOf stop (segmentsFrom pos cur path) k ∧
      texts (path.drop (endOf stop (segmentsFrom pos cur path) k - pos)) =
        ((segmentsFrom pos cur path).map Segment.text).drop k := by
  induction path generalizing pos cur stop k with
  | nil =>
      by_cases hcur : cur = []
      · simp only [segmentsFrom, hcur, if_true, List.length_nil] at hle
        omega
      · simp only [segmentsFrom, hcur, if_false, List.length_singleton] at hle
        obtain rfl : k = 1 := by omega
        simp [segmentsFrom, hcur, endOf, texts, segments]
  | cons c path ih =>
      have hstep : ∀ {cur' : Str} {stop : Nat} {k : Nat}, 0 < k →
          k ≤ (segmentsFrom (pos + 1) cur' path).length →
          pos ≤ endOf stop (segmentsFrom (pos + 1) cur' path) k ∧
            texts ((c :: path).drop (endOf stop (segmentsFrom (pos + 1) cur' path) k - pos)) =
              ((segmentsFrom (pos + 1) cur' path).map Segment.text).drop k := by
        intro cur' stop k hk hle
        obtain ⟨hpos, htexts⟩ := @ih _ k _ stop hk hle
        refine ⟨by omega, ?_⟩
        rw [← htexts, show endOf stop (segmentsFrom (pos + 1) cur' path) k - pos =
          endOf stop (segmentsFrom (pos + 1) cur' path) k - (pos + 1) + 1 by omega,
          List.drop_succ_cons]
      unfold segmentsFrom at hle ⊢
      split at hle
      · rename_i hc
        simp only [hc, if_true]
        split at hle
        · rename_i hcur
          simp only [hcur, if_true]
          exact hstep hk hle
        · rename_i hcur
          simp only [hcur, if_false]
          obtain ⟨k, rfl⟩ : ∃ i, k = i + 1 := ⟨k - 1, by omega⟩
          rw [endOf, List.map_cons, List.drop_succ_cons]
          cases k with
          | zero =>
              simp only [endOf_zero, le_refl, Nat.sub_self, List.drop_zero, true_and]
              rw [texts_separator hc]
              exact segmentsFrom_texts _ _ _ _
          | succ k => exact hstep (Nat.succ_pos k) (by simpa using hle)
      · rename_i hc
        simp only [hc]
        exact hstep hk hle

theorem texts_drop_endOf (hk : 0 < k) (hle : k ≤ (texts path).length) :
    texts (path.drop (endOf (getRoot path) (segments path) k)) = (texts path).drop k :=
  (texts_drop_segmentsFrom hk (by simpa [texts, segments] using hle)).2

theorem endOf_le {stop : Nat} (hstop : stop ≤ pos + path.length) :
    endOf stop (segmentsFrom pos cur path) k ≤ pos + path.length := by
  induction path generalizing pos cur stop k with
  | nil =>
      by_cases hcur : cur = []
      · simpa [segmentsFrom, hcur, endOf] using hstop
      · cases k with
        | zero => rwa [endOf_zero]
        | succ k => simp [segmentsFrom, hcur, endOf]
  | cons c path ih =>
      have hlen : pos + (c :: path).length = pos + 1 + path.length := by
        rw [List.length_cons]
        omega
      rw [hlen] at hstop ⊢
      unfold segmentsFrom
      split
      · split
        · exact ih hstop
        · cases k with
          | zero => rwa [endOf_zero]
          | succ k => exact ih (show pos ≤ pos + 1 + path.length by omega)
      · exact ih hstop

/-- What a normalized path looks like. -/
def Normalized (path : Str) : Prop :=
  texts path = normalForm path ∨ (isAbsolute path = false ∧ normalForm path = [])

theorem normalized_render (hnames : ∀ t ∈ names, Clean t) :
    Normalized (render absolute names) := by
  rw [Normalized, normalForm_render hnames, isAbsolute_render hnames]
  have hrender := @texts_render absolute _ hnames
  rcases hrender with h | ⟨habs, hnil, -⟩
  · exact .inl h
  · exact .inr ⟨habs, hnil⟩

theorem Normalized.texts_eq (h : Normalized path)
    (hne : isAbsolute path = true ∨ normalForm path ≠ []) : texts path = normalForm path := by
  rcases h with h | ⟨hrel, hnil⟩
  · exact h
  · rcases hne with hne | hne
    · rw [hrel] at hne
      cases hne
    · exact absurd hnil hne

theorem visible_texts : (visible (isAbsolute path) (segments path)).map Segment.text =
    normalForm path := by
  rw [visible_eq_reduce, normalForm, texts, reduce_map]
  rfl

theorem getRoot_eq (path : Str) : getRoot path = if isAbsolute path then 1 else 0 := by
  rcases path with _ | ⟨c, path⟩
  · rfl
  · cases hc : isSeparator c <;> simp [getRoot, isAbsolute, hc]

theorem getRoot_eq_iff : getRoot a = getRoot b ↔ isAbsolute a = isAbsolute b := by
  rw [getRoot_eq, getRoot_eq]
  cases isAbsolute a <;> cases isAbsolute b <;> simp

/-- The intersection with a normalized path. -/
theorem getIntersection_eq (h : Normalized a) :
    getIntersection a b = if isAbsolute a = isAbsolute b then
      endOf (getRoot a) (segments a) (shared (normalForm a) (normalForm b)) else 0 := by
  unfold getIntersection
  by_cases hroot : isAbsolute a = isAbsolute b
  · rw [if_pos hroot]
    simp only [getRoot_eq_iff.mpr hroot, ne_eq, not_true_eq_false, if_false]
    split
    · rename_i hnil
      have hshared : shared (normalForm a) (normalForm b) = 0 := by
        rcases hnil with hnil | hnil
        · rw [show normalForm a = [] by simp [normalForm, texts, hnil, reduce]]
          rfl
        · rw [show normalForm b = [] by simp [normalForm, texts, hnil, reduce]]
          cases normalForm a <;> rfl
      rw [hshared, endOf_zero]
    · have hb : (visible (isAbsolute a) (segments b)).map Segment.text = normalForm b := by
        rw [hroot, visible_texts]
      rw [commonEnd_eq, visible_texts, hb]
      rcases h with h | ⟨-, hnil⟩
      · have hall : visible (isAbsolute a) (segments a) = segments a := by
          rw [visible_eq_reduce]
          apply reduce_of_reduced
          apply @reduced_of_map _ textType
          rw [show (segments a).map Segment.text = normalForm a from h]
          exact reduce_reduced
        rw [hall]
      · rw [hnil]
        simp [shared, endOf_zero]
  · rw [if_neg hroot, if_pos fun h => hroot (getRoot_eq_iff.mp h)]

end LfiRuntime.Cwalk
