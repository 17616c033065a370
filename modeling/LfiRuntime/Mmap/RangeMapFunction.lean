import LfiRuntime.Mmap.RangeMap
import Mathlib.Data.List.Pairwise
import Mathlib.Tactic

/-!
The range map as a finite function on its keys. The entries of a map are
sorted, disjoint and non-empty, and every operation is described by the entries
it leaves.
-/

namespace LfiRuntime.RangeMap

section

variable {α : Type} {m : List α} {e : α} {p : α → Bool}

/-- A search by a property that a prefix of the list has. -/
theorem mem_takeWhile_iff
    (hp : m.Pairwise fun a b => p b = true → p a = true) :
    e ∈ m.takeWhile p ↔ e ∈ m ∧ p e = true := by
  induction m with
  | nil => simp
  | cons x xs ih =>
      obtain ⟨hx, hxs⟩ := List.pairwise_cons.mp hp
      by_cases hpx : p x = true
      · simp only [List.takeWhile_cons, hpx, if_true, List.mem_cons, ih hxs]
        constructor
        · rintro (rfl | ⟨he, hpe⟩)
          · exact ⟨.inl rfl, hpx⟩
          · exact ⟨.inr he, hpe⟩
        · rintro ⟨rfl | he, hpe⟩
          · exact .inl rfl
          · exact .inr ⟨he, hpe⟩
      · simp only [List.takeWhile_cons, hpx]
        refine ⟨by simp, ?_⟩
        rintro ⟨he, hpe⟩
        rcases List.mem_cons.mp he with rfl | he
        · exact absurd hpe hpx
        · exact absurd (hx e he hpe) hpx

theorem mem_dropWhile_iff
    (hp : m.Pairwise fun a b => p b = true → p a = true) :
    e ∈ m.dropWhile p ↔ e ∈ m ∧ ¬p e = true := by
  induction m with
  | nil => simp
  | cons x xs ih =>
      obtain ⟨hx, hxs⟩ := List.pairwise_cons.mp hp
      by_cases hpx : p x = true
      · simp only [List.dropWhile_cons, hpx, if_true, List.mem_cons, ih hxs]
        constructor
        · rintro ⟨he, hpe⟩
          exact ⟨.inr he, hpe⟩
        · rintro ⟨rfl | he, hpe⟩
          · exact absurd hpx hpe
          · exact ⟨he, hpe⟩
      · simp only [List.dropWhile_cons, hpx]
        refine ⟨?_, fun h => h.1⟩
        intro he
        refine ⟨he, ?_⟩
        rcases List.mem_cons.mp he with rfl | he
        · exact hpx
        · exact fun hpe => hpx (hx e he hpe)

end

variable {K V : Type} [LinearOrder K]

/-- The entry contains the key. -/
def Entry.Covers (e : Entry K V) (k : K) : Prop := e.start ≤ k ∧ k < e.stop

instance (e : Entry K V) (k : K) : Decidable (e.Covers k) :=
  inferInstanceAs (Decidable (_ ∧ _))

structure WellFormed (m : List (Entry K V)) : Prop where
  nonempty : ∀ e ∈ m, e.start < e.stop
  sorted : m.Pairwise fun a b => a.stop ≤ b.start

variable {m : List (Entry K V)} {e f : Entry K V} {start stop k : K}

namespace WellFormed

theorem nil : WellFormed ([] : List (Entry K V)) :=
  ⟨by simp, List.Pairwise.nil⟩

theorem cons_iff {es : List (Entry K V)} :
    WellFormed (e :: es) ↔
      e.start < e.stop ∧ (∀ f ∈ es, e.stop ≤ f.start) ∧ WellFormed es := by
  constructor
  · rintro ⟨hne, hs⟩
    rw [List.pairwise_cons] at hs
    exact ⟨hne e List.mem_cons_self, hs.1, fun f hf => hne f (List.mem_cons_of_mem _ hf), hs.2⟩
  · rintro ⟨he, hle, hne, hs⟩
    refine ⟨?_, List.pairwise_cons.mpr ⟨hle, hs⟩⟩
    intro f hf
    rcases List.mem_cons.mp hf with rfl | hf
    · exact he
    · exact hne f hf

theorem append_iff {xs ys : List (Entry K V)} :
    WellFormed (xs ++ ys) ↔
      WellFormed xs ∧ WellFormed ys ∧ ∀ a ∈ xs, ∀ b ∈ ys, a.stop ≤ b.start := by
  constructor
  · rintro ⟨hne, hs⟩
    rw [List.pairwise_append] at hs
    exact ⟨⟨fun e he => hne e (List.mem_append_left _ he), hs.1⟩,
      ⟨fun e he => hne e (List.mem_append_right _ he), hs.2.1⟩, hs.2.2⟩
  · rintro ⟨⟨hx, hxs⟩, ⟨hy, hys⟩, hle⟩
    refine ⟨?_, List.pairwise_append.mpr ⟨hxs, hys, hle⟩⟩
    intro e he
    exact (List.mem_append.mp he).elim (hx e) (hy e)

theorem sublist {l : List (Entry K V)} (h : WellFormed m) (hl : l.Sublist m) : WellFormed l :=
  ⟨fun e he => h.nonempty e (hl.subset he), h.sorted.sublist hl⟩

/-- The starts of the entries increase. -/
theorem starts (h : WellFormed m) : m.Pairwise fun a b => a.start < b.start := by
  induction m with
  | nil => exact List.Pairwise.nil
  | cons e es ih =>
      obtain ⟨he, hle, hes⟩ := cons_iff.mp h
      refine List.pairwise_cons.mpr ⟨?_, ih hes⟩
      intro f hf
      exact lt_of_lt_of_le he (hle f hf)

/-- Two entries are the same or lie apart. -/
theorem apart (h : WellFormed m) (he : e ∈ m) (hf : f ∈ m) :
    e = f ∨ e.stop ≤ f.start ∨ f.stop ≤ e.start := by
  induction m with
  | nil => cases he
  | cons x xs ih =>
      obtain ⟨-, hle, hxs⟩ := cons_iff.mp h
      rcases List.mem_cons.mp he with rfl | hex <;> rcases List.mem_cons.mp hf with rfl | hfx
      · exact .inl rfl
      · exact .inr (.inl (hle f hfx))
      · exact .inr (.inr (hle e hex))
      · exact ih hxs hex hfx

/-- At most one entry contains a key. -/
theorem eq_of_covers (h : WellFormed m) (he : e ∈ m) (hf : f ∈ m) (hek : e.Covers k)
    (hfk : f.Covers k) : e = f := by
  rcases h.apart he hf with heq | hlt | hlt
  · exact heq
  · exact absurd (lt_of_lt_of_le hek.2 (hlt.trans hfk.1)) (lt_irrefl k)
  · exact absurd (lt_of_lt_of_le hfk.2 (hlt.trans hek.1)) (lt_irrefl k)

end WellFormed

theorem startsBefore (h : WellFormed m) (k : K) :
    m.Pairwise fun a b => decide (b.start < k) = true → decide (a.start < k) = true := by
  refine h.starts.imp fun {a b} hab => ?_
  simp only [decide_eq_true_eq]
  exact fun hb => hab.trans hb

/-- What `find` returns. -/
theorem find_eq_some_iff (h : WellFormed m) : find m k = some e ↔ e ∈ m ∧ e.Covers k := by
  have hp : m.Pairwise fun a b => decide (b.start ≤ k) = true → decide (a.start ≤ k) = true := by
    refine h.starts.imp fun {a b} hab => ?_
    simp only [decide_eq_true_eq]
    exact fun hb => hab.le.trans hb
  unfold find
  cases hl : (m.takeWhile fun e => decide (e.start ≤ k)).getLast? with
  | none =>
      rw [List.getLast?_eq_none_iff] at hl
      constructor
      · intro hnone
        cases hnone
      · rintro ⟨he, hek, -⟩
        have hmem := (mem_takeWhile_iff hp).mpr ⟨he, decide_eq_true hek⟩
        rw [hl] at hmem
        cases hmem
  | some l =>
      obtain ⟨init, hinit⟩ := List.getLast?_eq_some_iff.mp hl
      have hmem : l ∈ m ∧ decide (l.start ≤ k) = true :=
        (mem_takeWhile_iff hp).mp (hinit ▸ List.mem_append_right _ List.mem_cons_self)
      have hlk : l.start ≤ k := of_decide_eq_true hmem.2
      have hlast : ∀ x ∈ m, x.Covers k → x = l := by
        intro x hx hxk
        have hxt := (mem_takeWhile_iff hp).mpr ⟨hx, decide_eq_true hxk.1⟩
        rw [hinit, List.mem_append, List.mem_singleton] at hxt
        rcases hxt with hxt | rfl
        · have hsub := h.sublist (List.takeWhile_sublist fun e => decide (e.start ≤ k))
          rw [hinit] at hsub
          obtain ⟨-, -, hle⟩ := WellFormed.append_iff.mp hsub
          have hxl := hle x hxt l List.mem_cons_self
          exact absurd (lt_of_lt_of_le hxk.2 (hxl.trans hlk)) (lt_irrefl k)
        · rfl
      simp only
      constructor
      · intro hfind
        split at hfind
        · rename_i hkl
          cases hfind
          exact ⟨hmem.1, hlk, hkl⟩
        · cases hfind
      · rintro ⟨he, hek⟩
        obtain rfl := hlast e he hek
        exact if_pos hek.2

theorem find_eq_none_iff (h : WellFormed m) : find m k = none ↔ ∀ e ∈ m, ¬e.Covers k := by
  constructor
  · intro hnone e he hek
    rw [(find_eq_some_iff h).mpr ⟨he, hek⟩] at hnone
    cases hnone
  · intro hall
    cases hf : find m k with
    | none => rfl
    | some e =>
        obtain ⟨he, hek⟩ := (find_eq_some_iff h).mp hf
        exact absurd hek (hall e he)

/-- `overlap_begin` splits the map at the first entry that ends after `start`. -/
theorem overlapBegin_spec (h : WellFormed m) (start : K) :
    (overlapBegin m start).1 ++ (overlapBegin m start).2 = m ∧
      (∀ e ∈ (overlapBegin m start).1, e.stop ≤ start) ∧
      ∀ e ∈ (overlapBegin m start).2, start < e.stop := by
  let before := m.takeWhile fun e => decide (e.start < start)
  let rest := m.dropWhile fun e => decide (e.start < start)
  have happend : before ++ rest = m := List.takeWhile_append_dropWhile
  have hbefore : ∀ e ∈ before, e.start < start := fun e he =>
    of_decide_eq_true ((mem_takeWhile_iff (startsBefore h start)).mp he).2
  have hrest : ∀ e ∈ rest, start < e.stop := by
    intro e he
    obtain ⟨hmem, hnot⟩ := (mem_dropWhile_iff (startsBefore h start)).mp he
    rw [decide_eq_true_eq, not_lt] at hnot
    exact lt_of_le_of_lt hnot (h.nonempty e hmem)
  have hdef : overlapBegin m start = before.getLast?.elim (before, rest) fun e =>
      if e.stop ≤ start then (before, rest) else (before.dropLast, e :: rest) := by
    simp only [overlapBegin]
    cases before.getLast? <;> rfl
  cases hl : before.getLast? with
  | none =>
      rw [hdef, hl, Option.elim_none]
      rw [List.getLast?_eq_none_iff] at hl
      refine ⟨happend, ?_, hrest⟩
      intro e he
      rw [hl] at he
      cases he
  | some l =>
      obtain ⟨init, hinit⟩ := List.getLast?_eq_some_iff.mp hl
      have hl' : l.start < start := hbefore l (hinit ▸ List.mem_append_right _ List.mem_cons_self)
      have hwf : WellFormed (init ++ [l]) :=
        hinit ▸ h.sublist (List.takeWhile_sublist fun e : Entry K V => decide (e.start < start))
      have hinit' : ∀ e ∈ init, e.stop ≤ start := fun e he =>
        ((WellFormed.append_iff.mp hwf).2.2 e he l List.mem_cons_self).trans hl'.le
      rw [hdef, hl, Option.elim_some]
      by_cases hstop : l.stop ≤ start
      · simp only [if_pos hstop]
        refine ⟨happend, ?_, hrest⟩
        intro e he
        rw [hinit, List.mem_append, List.mem_singleton] at he
        rcases he with he | rfl
        · exact hinit' e he
        · exact hstop
      · simp only [if_neg hstop]
        have hdrop : before.dropLast = init := by rw [hinit, List.dropLast_concat]
        refine ⟨?_, ?_, ?_⟩
        · calc before.dropLast ++ l :: rest = init ++ [l] ++ rest := by simp [hdrop]
            _ = m := by rw [← hinit, happend]
        · intro e he
          exact hinit' e (hdrop ▸ he)
        · intro e he
          rcases List.mem_cons.mp he with rfl | he
          · exact not_le.mp hstop
          · exact hrest e he

/-- An insertion where there is room for the new entry. -/
theorem mapInsert_spec (h : WellFormed m) (he : e.start < e.stop)
    (hroom : ∀ f ∈ m, e.stop ≤ f.start ∨ f.stop ≤ e.start) :
    WellFormed (mapInsert e m) ∧ ∀ f, f ∈ mapInsert e m ↔ f = e ∨ f ∈ m := by
  induction m with
  | nil => exact ⟨WellFormed.cons_iff.mpr ⟨he, by simp, .nil⟩, by simp [mapInsert]⟩
  | cons x xs ih =>
      obtain ⟨hx, hle, hxs⟩ := WellFormed.cons_iff.mp h
      obtain ⟨hwf, hmem⟩ := ih hxs fun f hf => hroom f (List.mem_cons_of_mem _ hf)
      rcases hroom x List.mem_cons_self with hex | hxe
      · rw [mapInsert, if_pos (lt_of_lt_of_le he hex)]
        refine ⟨WellFormed.cons_iff.mpr ⟨he, ?_, h⟩, by simp⟩
        intro f hf
        rcases List.mem_cons.mp hf with rfl | hf
        · exact hex
        · exact hex.trans (hx.le.trans (hle f hf))
      · have hlt : x.start < e.start := lt_of_lt_of_le hx hxe
        rw [mapInsert, if_neg hlt.not_gt, if_pos hlt]
        refine ⟨WellFormed.cons_iff.mpr ⟨hx, ?_, hwf⟩, ?_⟩
        · intro f hf
          rcases (hmem f).mp hf with rfl | hf
          · exact hxe
          · exact hle f hf
        · intro f
          rw [List.mem_cons, hmem f, List.mem_cons]
          exact or_left_comm

theorem insertStub_spec (stub : Option (Entry K V)) (h : WellFormed m)
    (hne : ∀ e ∈ stub, e.start < e.stop)
    (hroom : ∀ e ∈ stub, ∀ f ∈ m, e.stop ≤ f.start ∨ f.stop ≤ e.start) :
    WellFormed (insertStub m stub) ∧ ∀ f, f ∈ insertStub m stub ↔ f ∈ stub ∨ f ∈ m := by
  cases stub with
  | none => exact ⟨h, by simp [insertStub]⟩
  | some e =>
      obtain ⟨hwf, hmem⟩ := mapInsert_spec h (hne e rfl) (hroom e rfl)
      refine ⟨hwf, fun f => (hmem f).trans ?_⟩
      rw [Option.mem_some_iff, eq_comm]

/-! The erase loop, on entries that end after `start`. -/

/-- What sticks out of `[start, stop)` on the left and on the right. -/
def LeftStub (start : K) (e f : Entry K V) : Prop :=
  e.start < start ∧ f = ⟨e.start, start, e.val⟩

def RightStub (stop : K) (e f : Entry K V) : Prop :=
  e.start < stop ∧ stop < e.stop ∧ f = ⟨stop, e.stop, e.val⟩

variable {es : List (Entry K V)} {left right : Option (Entry K V)}

theorem carve_of_stop_le (hes : ∀ e ∈ es, stop ≤ e.start) :
    carve start stop es left right = (es, left, right) := by
  cases es with
  | nil => rfl
  | cons e es => rw [carve, if_neg (hes e List.mem_cons_self).not_gt]

theorem carve_left (hes : ∀ e ∈ es, start ≤ e.start) :
    (carve start stop es left right).2.1 = left := by
  induction es generalizing right with
  | nil => rfl
  | cons e es ih =>
      rw [carve]
      split
      · rw [if_neg (hes e List.mem_cons_self).not_gt]
        exact ih fun f hf => hes f (List.mem_cons_of_mem _ hf)
      · rfl

theorem carve_kept (h : WellFormed es) :
    (carve start stop es left right).1 = es.dropWhile fun e => decide (e.start < stop) := by
  induction es generalizing left right with
  | nil => rfl
  | cons e es ih =>
      rw [carve, List.dropWhile_cons]
      by_cases he : e.start < stop
      · rw [if_pos he, if_pos (decide_eq_true he)]
        exact ih (WellFormed.cons_iff.mp h).2.2
      · rw [if_neg he, if_neg (by simpa using he)]

theorem carve_left_iff (h : WellFormed es) (hlt : start < stop) (hes : ∀ e ∈ es, start < e.stop) :
    (carve start stop es none right).2.1 = some f ↔ ∃ e ∈ es, LeftStub start e f := by
  cases es with
  | nil => simp [carve]
  | cons x xs =>
      obtain ⟨-, hle, -⟩ := WellFormed.cons_iff.mp h
      have hxs : ∀ e ∈ xs, start ≤ e.start := fun e he =>
        ((hes x List.mem_cons_self).trans_le (hle e he)).le
      have hiff : (∃ e ∈ x :: xs, LeftStub start e f) ↔ LeftStub start x f := by
        constructor
        · rintro ⟨e, he, hstub⟩
          rcases List.mem_cons.mp he with rfl | he
          · exact hstub
          · exact absurd hstub.1 (hxs e he).not_gt
        · exact fun hstub => ⟨x, List.mem_cons_self, hstub⟩
      rw [hiff, carve]
      by_cases hx : x.start < start
      · rw [if_pos (hx.trans hlt), if_pos hx, carve_left hxs]
        simp [LeftStub, hx, eq_comm]
      · have hnone : ∀ r, (carve start stop xs none r).2.1 = none := fun r => carve_left hxs
        rw [if_neg hx]
        split <;> simp [hnone, LeftStub, hx]

theorem carve_right_iff (h : WellFormed es) :
    (carve start stop es left none).2.2 = some f ↔ ∃ e ∈ es, RightStub stop e f := by
  induction es generalizing left with
  | nil => simp [carve]
  | cons x xs ih =>
      obtain ⟨hne, hle, hxs⟩ := WellFormed.cons_iff.mp h
      rw [carve]
      by_cases hx : x.start < stop
      · rw [if_pos hx]
        by_cases hstop : stop < x.stop
        · have hafter : ∀ e ∈ xs, stop ≤ e.start := fun e he => (hstop.trans_le (hle e he)).le
          rw [if_pos hstop, carve_of_stop_le hafter, Option.some_inj]
          constructor
          · rintro rfl
            exact ⟨x, List.mem_cons_self, hx, hstop, rfl⟩
          · rintro ⟨e, he, hlt, -, rfl⟩
            rcases List.mem_cons.mp he with rfl | he
            · rfl
            · exact absurd hlt (hafter e he).not_gt
        · rw [if_neg hstop, ih hxs]
          simp [RightStub, hstop]
      · rw [if_neg hx]
        simp only [reduceCtorEq, false_iff]
        rintro ⟨e, he, hlt, -⟩
        rcases List.mem_cons.mp he with rfl | he
        · exact hx hlt
        · exact hx (hne.le.trans (hle e he) |>.trans_lt hlt)

/-- `f` is a part of `e` outside `[start, stop)`. -/
def Remnant (start stop : K) (e f : Entry K V) : Prop :=
  ((e.stop ≤ start ∨ stop ≤ e.start) ∧ f = e) ∨
    (start < e.stop ∧ LeftStub start e f) ∨ RightStub stop e f

theorem remove_of_le (hle : stop ≤ start) : remove m start stop = m := if_pos hle

/-- The entries that `remove` leaves. -/
theorem remove_spec (h : WellFormed m) (hlt : start < stop) :
    WellFormed (remove m start stop) ∧
      ∀ f, f ∈ remove m start stop ↔ ∃ e ∈ m, Remnant start stop e f := by
  obtain ⟨happend, hbefore, hrest⟩ := overlapBegin_spec h start
  have hdef : remove m start stop =
      insertStub (insertStub
        ((overlapBegin m start).1 ++ (carve start stop (overlapBegin m start).2 none none).1)
        (carve start stop (overlapBegin m start).2 none none).2.1)
        (carve start stop (overlapBegin m start).2 none none).2.2 := if_neg hlt.not_ge
  rw [hdef]
  clear hdef
  generalize (overlapBegin m start).1 = before at *
  generalize (overlapBegin m start).2 = rest at *
  subst happend
  obtain ⟨-, hwfr, -⟩ := WellFormed.append_iff.mp h
  let out := carve start stop rest none none
  have hstops : rest.Pairwise fun a b =>
      decide (b.start < stop) = true → decide (a.start < stop) = true := startsBefore hwfr stop
  have hkept : ∀ f, f ∈ out.1 ↔ f ∈ rest ∧ stop ≤ f.start := by
    intro f
    rw [show out.1 = _ from carve_kept hwfr, mem_dropWhile_iff hstops]
    simp
  have hleft : ∀ f, f ∈ out.2.1 ↔ ∃ e ∈ rest, LeftStub start e f := fun f =>
    carve_left_iff hwfr hlt hrest
  have hright : ∀ f, f ∈ out.2.2 ↔ ∃ e ∈ rest, RightStub stop e f := fun f =>
    carve_right_iff hwfr
  have hwf₀ : WellFormed (before ++ out.1) := by
    refine h.sublist (List.Sublist.append (List.Sublist.refl _) ?_)
    rw [show out.1 = _ from carve_kept hwfr]
    exact List.dropWhile_sublist _
  have hkeep : ∀ f ∈ before ++ out.1, f.stop ≤ start ∨ stop ≤ f.start := by
    intro f hf
    rcases List.mem_append.mp hf with hf | hf
    · exact .inl (hbefore f hf)
    · exact .inr ((hkept f).mp hf).2
  have hmem₀ : ∀ f ∈ before ++ out.1, f ∈ before ++ rest := by
    intro f hf
    rcases List.mem_append.mp hf with hf | hf
    · exact List.mem_append_left _ hf
    · exact List.mem_append_right _ ((hkept f).mp hf).1
  -- a stub lies inside the entry it comes from, which is apart from those kept
  obtain ⟨hwf₁, hmem₁⟩ := insertStub_spec out.2.1 hwf₀
    (by
      intro f hf
      obtain ⟨e, -, hes, rfl⟩ := (hleft f).mp hf
      exact hes)
    (by
      intro f hf g hg
      obtain ⟨e, he, hes, rfl⟩ := (hleft f).mp hf
      rcases hkeep g hg with hgs | hgs
      · rcases h.apart (List.mem_append_right _ he) (hmem₀ g hg) with rfl | heg | hge
        · exact absurd (hrest _ he) hgs.not_gt
        · exact .inl (le_trans (hrest e he).le heg)
        · exact .inr hge
      · exact .inl (hlt.le.trans hgs))
  obtain ⟨hwf₂, hmem₂⟩ := insertStub_spec out.2.2 hwf₁
    (by
      intro f hf
      obtain ⟨e, -, -, hes, rfl⟩ := (hright f).mp hf
      exact hes)
    (by
      intro f hf g hg
      obtain ⟨e, he, hes, -, rfl⟩ := (hright f).mp hf
      rcases (hmem₁ g).mp hg with hg | hg
      · obtain ⟨-, -, -, rfl⟩ := (hleft g).mp hg
        exact .inr hlt.le
      · rcases hkeep g hg with hgs | hgs
        · exact .inr (hgs.trans hlt.le)
        · rcases h.apart (List.mem_append_right _ he) (hmem₀ g hg) with rfl | heg | hge
          · exact absurd hes hgs.not_gt
          · exact .inl heg
          · exact .inr (hge.trans hes.le))
  refine ⟨hwf₂, fun f => (hmem₂ f).trans ?_⟩
  rw [hmem₁, hright, hleft, List.mem_append, hkept]
  constructor
  · rintro (⟨e, he, hes⟩ | ⟨e, he, hes⟩ | hf | ⟨hf, hfs⟩)
    · exact ⟨e, List.mem_append_right _ he, .inr (.inr hes)⟩
    · exact ⟨e, List.mem_append_right _ he, .inr (.inl ⟨hrest e he, hes⟩)⟩
    · exact ⟨f, List.mem_append_left _ hf, .inl ⟨.inl (hbefore f hf), rfl⟩⟩
    · exact ⟨f, List.mem_append_right _ hf, .inl ⟨.inr hfs, rfl⟩⟩
  · rintro ⟨e, he, ⟨hout, rfl⟩ | ⟨hse, hes⟩ | hes⟩
    · rcases List.mem_append.mp he with he | he
      · exact .inr (.inr (.inl he))
      · rcases hout with hout | hout
        · exact absurd (hrest _ he) hout.not_gt
        · exact .inr (.inr (.inr ⟨he, hout⟩))
    · rcases List.mem_append.mp he with he | he
      · exact absurd hse (hbefore e he).not_gt
      · exact .inr (.inl ⟨e, he, hes⟩)
    · rcases List.mem_append.mp he with he | he
      · exact absurd (hlt.trans hes.2.1) (hbefore e he).not_gt
      · exact .inl ⟨e, he, hes⟩

/-! The function a map stands for. -/

def toFun (m : List (Entry K V)) (k : K) : Option V := (find m k).map Entry.val

theorem toFun_eq_some_iff (h : WellFormed m) {v : V} :
    toFun m k = some v ↔ ∃ e ∈ m, e.Covers k ∧ e.val = v := by
  simp only [toFun, Option.map_eq_some_iff, find_eq_some_iff h, and_assoc]

theorem toFun_remove (h : WellFormed m) (start stop k : K) :
    toFun (remove m start stop) k = if start ≤ k ∧ k < stop then none else toFun m k := by
  by_cases hlt : start < stop
  · obtain ⟨hwf, hmem⟩ := remove_spec h hlt
    ext v
    rw [toFun_eq_some_iff hwf]
    simp only [hmem]
    split
    · rename_i hk
      simp only [reduceCtorEq, iff_false]
      rintro ⟨f, ⟨e, -, ⟨hout, rfl⟩ | ⟨-, -, rfl⟩ | ⟨-, -, rfl⟩⟩, hfk, -⟩
      · rcases hout with hout | hout
        · exact absurd (hk.1.trans_lt hfk.2) hout.not_gt
        · exact absurd (hfk.1.trans_lt hk.2) hout.not_gt
      · exact absurd hk.1 hfk.2.not_ge
      · exact absurd hk.2 (not_lt.mpr hfk.1)
    · rename_i hk
      rw [toFun_eq_some_iff h]
      constructor
      · rintro ⟨f, ⟨e, he, ⟨-, rfl⟩ | ⟨hse, hes, rfl⟩ | ⟨hes, hse, rfl⟩⟩, hfk, rfl⟩
        · exact ⟨f, he, hfk, rfl⟩
        · exact ⟨e, he, ⟨hfk.1, hfk.2.trans hse⟩, rfl⟩
        · exact ⟨e, he, ⟨hes.le.trans hfk.1, hfk.2⟩, rfl⟩
      · rintro ⟨e, he, hek, rfl⟩
        rcases not_and_or.mp hk with hks | hks
        · rw [not_le] at hks
          by_cases hse : start < e.stop
          · exact ⟨_, ⟨e, he, .inr (.inl ⟨hse, hek.1.trans_lt hks, rfl⟩)⟩, ⟨hek.1, hks⟩, rfl⟩
          · exact ⟨e, ⟨e, he, .inl ⟨.inl (not_lt.mp hse), rfl⟩⟩, hek, rfl⟩
        · rw [not_lt] at hks
          by_cases hes : e.start < stop
          · exact ⟨_, ⟨e, he, .inr (.inr ⟨hes, hks.trans_lt hek.2, rfl⟩)⟩, ⟨hks, hek.2⟩, rfl⟩
          · exact ⟨e, ⟨e, he, .inl ⟨.inr (not_lt.mp hes), rfl⟩⟩, hek, rfl⟩
  · rw [remove_of_le (not_lt.mp hlt), if_neg]
    rintro ⟨hsk, hks⟩
    exact hlt (hsk.trans_lt hks)

/-- The points of an entry are points of another one. -/
def Entry.Inside (e f : Entry K V) : Prop := f.start ≤ e.start ∧ e.stop ≤ f.stop

theorem Entry.Inside.refl (e : Entry K V) : e.Inside e := ⟨le_rfl, le_rfl⟩

theorem Entry.Inside.trans {e f g : Entry K V} (h : e.Inside f) (h' : f.Inside g) : e.Inside g :=
  ⟨h'.1.trans h.1, h.2.trans h'.2⟩

/-- Two neighbors that touch and carry equal values may be one entry. -/
theorem merge_spec {xs ys : List (Entry K V)} (h : WellFormed (xs ++ e :: f :: ys))
    (hstop : e.stop = f.start) (hval : e.val = f.val) :
    WellFormed (xs ++ { e with stop := f.stop } :: ys) ∧
      (∀ k, toFun (xs ++ { e with stop := f.stop } :: ys) k = toFun (xs ++ e :: f :: ys) k) ∧
      ∀ a ∈ xs ++ e :: f :: ys, ∃ b ∈ xs ++ { e with stop := f.stop } :: ys, a.Inside b := by
  obtain ⟨hx, hefy, hxefy⟩ := WellFormed.append_iff.mp h
  obtain ⟨he, hle, hfy⟩ := WellFormed.cons_iff.mp hefy
  obtain ⟨hf, hlf, hy⟩ := WellFormed.cons_iff.mp hfy
  have hwf : WellFormed (xs ++ { e with stop := f.stop } :: ys) := by
    refine WellFormed.append_iff.mpr ⟨hx, WellFormed.cons_iff.mpr ⟨?_, hlf, hy⟩, ?_⟩
    · exact he.trans (hstop ▸ hf)
    · intro a ha b hb
      rcases List.mem_cons.mp hb with rfl | hb
      · exact hxefy a ha e List.mem_cons_self
      · exact hxefy a ha b (List.mem_cons_of_mem _ (List.mem_cons_of_mem _ hb))
  refine ⟨hwf, fun k => ?_, fun a ha => ?_⟩
  swap
  · have hmid : { e with stop := f.stop } ∈ xs ++ { e with stop := f.stop } :: ys :=
      List.mem_append_right _ List.mem_cons_self
    rcases List.mem_append.mp ha with ha | ha
    · exact ⟨a, List.mem_append_left _ ha, .refl a⟩
    rcases List.mem_cons.mp ha with rfl | ha
    · exact ⟨_, hmid, le_rfl, (hstop ▸ hf).le⟩
    rcases List.mem_cons.mp ha with rfl | ha
    · exact ⟨_, hmid, he.le.trans hstop.le, le_rfl⟩
    · exact ⟨a, List.mem_append_right _ (List.mem_cons_of_mem _ ha), .refl a⟩
  ext v
  rw [toFun_eq_some_iff hwf, toFun_eq_some_iff h]
  have hcovers : Entry.Covers { e with stop := f.stop } k ↔ e.Covers k ∨ f.Covers k := by
    constructor
    · rintro ⟨hek, hkf⟩
      rcases lt_or_ge k e.stop with hk | hk
      · exact .inl ⟨hek, hk⟩
      · exact .inr ⟨hstop ▸ hk, hkf⟩
    · rintro (⟨hek, hk⟩ | ⟨hfk, hk⟩)
      · exact ⟨hek, hk.trans (hstop ▸ hf)⟩
      · exact ⟨he.le.trans (hstop ▸ hfk), hk⟩
  simp only [List.mem_append, List.mem_cons, or_and_right, exists_or, exists_eq_left, hcovers]
  rw [hval, or_assoc]

/-- The merge with the left neighbor, which comes second. -/
def mergeLeft [DecidableEq V] (before : List (Entry K V)) (it : Entry K V) (rest : List (Entry K V)) :
    List (Entry K V) :=
  match before.getLast? with
  | some left =>
      if left.stop = it.start ∧ left.val = it.val then
        before.dropLast ++ { left with stop := it.stop } :: rest
      else before ++ it :: rest
  | none => it :: rest

theorem mergeLeft_spec [DecidableEq V] (before : List (Entry K V)) (it : Entry K V)
    (rest : List (Entry K V)) (hwf : WellFormed (before ++ it :: rest)) :
    WellFormed (mergeLeft before it rest) ∧
      (∀ k, toFun (mergeLeft before it rest) k = toFun (before ++ it :: rest) k) ∧
      ∀ a ∈ before ++ it :: rest, ∃ b ∈ mergeLeft before it rest, a.Inside b := by
  rw [mergeLeft]
  cases hl : before.getLast? with
  | none =>
      rw [List.getLast?_eq_none_iff] at hl
      subst hl
      exact ⟨hwf, fun _ => rfl, fun a ha => ⟨a, ha, .refl a⟩⟩
  | some left =>
      obtain ⟨init, rfl⟩ := List.getLast?_eq_some_iff.mp hl
      simp only [List.dropLast_concat]
      split
      · rename_i heq
        rw [List.append_assoc, List.singleton_append] at hwf ⊢
        exact merge_spec hwf heq.1 heq.2
      · exact ⟨hwf, fun _ => rfl, fun a ha => ⟨a, ha, .refl a⟩⟩

/-- Merging neighbors changes nothing that the map says. -/
theorem coalesce_spec [DecidableEq V] (h : WellFormed m) (start : K) :
    WellFormed (coalesce m start) ∧ (∀ k, toFun (coalesce m start) k = toFun m k) ∧
      ∀ a ∈ m, ∃ b ∈ coalesce m start, a.Inside b := by
  have happend := List.takeWhile_append_dropWhile (p := fun e => decide (e.start < start)) (l := m)
  unfold coalesce
  simp only
  generalize (m.takeWhile fun e => decide (e.start < start)) = before at *
  generalize (m.dropWhile fun e => decide (e.start < start)) = after at *
  subst happend
  cases after with
  | nil => exact ⟨h, fun _ => rfl, fun a ha => ⟨a, ha, .refl a⟩⟩
  | cons it after =>
      simp only
      cases after with
      | nil => exact mergeLeft_spec before it [] h
      | cons right rest =>
          by_cases heq : it.stop = right.start ∧ it.val = right.val
          · simp only [if_pos heq]
            obtain ⟨hwf, hsame, hin⟩ := merge_spec h heq.1 heq.2
            obtain ⟨hwf', hsame', hin'⟩ := mergeLeft_spec _ _ _ hwf
            refine ⟨hwf', fun k => (hsame' k).trans (hsame k), fun a ha => ?_⟩
            obtain ⟨b, hb, hab⟩ := hin a ha
            obtain ⟨d, hd, hbd⟩ := hin' b hb
            exact ⟨d, hd, hab.trans hbd⟩
          · simp only [if_neg heq]
            exact mergeLeft_spec before it _ h

theorem insert_of_le [DecidableEq V] (hle : stop ≤ start) (val : V) :
    insert m start stop val = m := if_pos hle

theorem insert_spec [DecidableEq V] (h : WellFormed m) (hlt : start < stop) (val : V) :
    WellFormed (insert m start stop val) ∧
      (∀ k, toFun (insert m start stop val) k =
        if start ≤ k ∧ k < stop then some val else toFun m k) ∧
      ∃ e ∈ insert m start stop val, e.start ≤ start ∧ stop ≤ e.stop := by
  obtain ⟨hwf, hmem⟩ := remove_spec h hlt
  have hroom : ∀ f ∈ remove m start stop, stop ≤ f.start ∨ f.stop ≤ start := by
    intro f hf
    obtain ⟨e, -, ⟨hout, rfl⟩ | ⟨-, -, rfl⟩ | ⟨-, -, rfl⟩⟩ := (hmem f).mp hf
    · exact hout.symm
    · exact .inr (le_refl _)
    · exact .inl (le_refl _)
  obtain ⟨hwf₁, hmem₁⟩ := mapInsert_spec (e := ⟨start, stop, val⟩) hwf hlt hroom
  obtain ⟨hwf₂, hsame, hin⟩ := coalesce_spec hwf₁ start
  rw [insert, if_neg hlt.not_ge]
  refine ⟨hwf₂, fun k => (hsame k).trans ?_, hin _ ((hmem₁ _).mpr (.inl rfl))⟩
  ext v
  simp only [toFun_eq_some_iff hwf₁, hmem₁, or_and_right, exists_or, exists_eq_left]
  rw [← toFun_eq_some_iff hwf, toFun_remove h]
  by_cases hk : start ≤ k ∧ k < stop <;> simp [hk, Entry.Covers]

theorem wellFormed_remove (h : WellFormed m) (start stop : K) :
    WellFormed (remove m start stop) := by
  rcases lt_or_ge start stop with hlt | hle
  · exact (remove_spec h hlt).1
  · rwa [remove_of_le hle]

theorem wellFormed_insert [DecidableEq V] (h : WellFormed m) (start stop : K) (val : V) :
    WellFormed (insert m start stop val) := by
  rcases lt_or_ge start stop with hlt | hle
  · exact (insert_spec h hlt val).1
  · rwa [insert_of_le hle]

theorem toFun_insert [DecidableEq V] (h : WellFormed m) (start stop k : K) (val : V) :
    toFun (insert m start stop val) k =
      if start ≤ k ∧ k < stop then some val else toFun m k := by
  rcases lt_or_ge start stop with hlt | hle
  · exact (insert_spec h hlt val).2.1 k
  · rw [insert_of_le hle, if_neg]
    rintro ⟨hsk, hks⟩
    exact hle.not_gt (hsk.trans_lt hks)

/-! Queries over a range. -/

theorem toFun_eq_none_iff (h : WellFormed m) : toFun m k = none ↔ ∀ e ∈ m, ¬e.Covers k := by
  rw [toFun, Option.map_eq_none_iff, find_eq_none_iff h]

theorem overlapBegin_stop (h : WellFormed m) :
    WellFormed (overlapBegin m start).2 ∧ ∀ e ∈ (overlapBegin m start).2, start < e.stop := by
  obtain ⟨happend, -, hrest⟩ := overlapBegin_spec h start
  exact ⟨(WellFormed.append_iff.mp (happend ▸ h)).2.1, hrest⟩

/-- A range is free exactly when no entry meets it. -/
theorem free_iff (h : WellFormed m) (hlt : start < stop) :
    (∀ k, start ≤ k → k < stop → toFun m k = none) ↔
      ∀ e ∈ m, e.stop ≤ start ∨ stop ≤ e.start := by
  constructor
  · intro hfree e he
    by_contra hmeet
    obtain ⟨hse, hes⟩ := not_or.mp hmeet
    rw [not_le] at hse hes
    have hne := h.nonempty e he
    have hnone := hfree (max e.start start) (le_max_right _ _) (max_lt hes hlt)
    exact (toFun_eq_none_iff h).mp hnone e he ⟨le_max_left _ _, max_lt hne hse⟩
  · intro hapart k hsk hks
    refine (toFun_eq_none_iff h).mpr ?_
    rintro e he ⟨hek, hke⟩
    rcases hapart e he with hout | hout
    · exact absurd (hsk.trans_lt hke) hout.not_gt
    · exact absurd (hek.trans_lt hks) hout.not_gt

theorem mem_getOverlapping_iff (h : WellFormed m) (hlt : start < stop) :
    e ∈ getOverlapping m start stop ↔ e ∈ m ∧ start < e.stop ∧ e.start < stop := by
  obtain ⟨happend, hbefore, hrest⟩ := overlapBegin_spec h start
  rw [getOverlapping, if_neg hlt.not_ge,
    mem_takeWhile_iff (startsBefore (overlapBegin_stop h).1 stop), decide_eq_true_eq]
  constructor
  · rintro ⟨he, hes⟩
    exact ⟨happend ▸ List.mem_append_right _ he, hrest e he, hes⟩
  · rintro ⟨he, hse, hes⟩
    rw [← happend, List.mem_append] at he
    rcases he with he | he
    · exact absurd hse (hbefore e he).not_gt
    · exact ⟨he, hes⟩

theorem wellFormed_getOverlapping (start stop : K) (h : WellFormed m) :
    WellFormed (getOverlapping m start stop) := by
  rw [getOverlapping]
  split
  · exact .nil
  · exact (overlapBegin_stop h).1.sublist (List.takeWhile_sublist _)

/-- A range just inserted is met by one entry, the one that it lies in. -/
theorem getOverlapping_insert [DecidableEq V] (h : WellFormed m) (hlt : start < stop) (val : V) :
    ∃ e, getOverlapping (insert m start stop val) start stop = [e] ∧ e.start ≤ start ∧
      stop ≤ e.stop ∧ e.val = val := by
  obtain ⟨hwf, hfun, e, he, hlo, hhi⟩ := insert_spec h hlt val
  have hmem := fun f => mem_getOverlapping_iff (e := f) hwf hlt
  have hover := (hmem e).mpr ⟨he, hlt.trans_le hhi, hlo.trans_lt hlt⟩
  have honly : ∀ f ∈ getOverlapping (insert m start stop val) start stop, f = e := by
    intro f hf
    obtain ⟨hfm, hstop, hstart⟩ := (hmem f).mp hf
    have hne := hwf.nonempty f hfm
    refine hwf.eq_of_covers (k := max f.start start) hfm he ⟨le_max_left _ _, max_lt hne hstop⟩
      ⟨hlo.trans (le_max_right _ _), (max_lt hstart hlt).trans_le hhi⟩
  have hval : e.val = val := by
    have hstart := (toFun_eq_some_iff hwf).mpr ⟨e, he, ⟨hlo, hlt.trans_le hhi⟩, rfl⟩
    rw [hfun, if_pos ⟨le_rfl, hlt⟩] at hstart
    exact (Option.some.inj hstart).symm
  refine ⟨e, ?_, hlo, hhi, hval⟩
  have hlist := wellFormed_getOverlapping start stop hwf
  match hl : getOverlapping (insert m start stop val) start stop with
  | [] =>
      rw [hl] at hover
      cases hover
  | [f] =>
      rw [honly f (hl ▸ List.mem_cons_self)]
  | f :: g :: rest =>
      rw [hl] at hlist honly
      have hf := honly f List.mem_cons_self
      have hg := honly g (List.mem_cons_of_mem _ List.mem_cons_self)
      have hle := (WellFormed.cons_iff.mp hlist).2.1 g List.mem_cons_self
      rw [hf, hg] at hle
      exact absurd hle (hwf.nonempty e he).not_ge

theorem overlaps_iff (h : WellFormed m) (hlt : start < stop) :
    overlaps m start stop = true ↔ ∃ e ∈ m, start < e.stop ∧ e.start < stop := by
  have hover : overlaps m start stop = true ↔ ∃ e, e ∈ getOverlapping m start stop := by
    rw [overlaps, getOverlapping, if_neg hlt.not_ge, if_neg hlt.not_ge]
    cases (overlapBegin m start).2 with
    | nil => simp
    | cons e es =>
        by_cases he : e.start < stop
        · simp only [he, decide_true, List.takeWhile_cons, if_true, true_iff]
          exact ⟨e, List.mem_cons_self⟩
        · simp [he]
  simp only [hover, mem_getOverlapping_iff h hlt]

/-- The gaps that the loop of `get_gaps` finds are free parts of the range. -/
theorem gapsFrom_sound {es : List (Entry K V)} (h : WellFormed es) {cursor : K}
    (hes : ∀ e ∈ es, cursor < e.stop) {gap : K × K} (hgap : gap ∈ gapsFrom stop cursor es) :
    cursor ≤ gap.1 ∧ gap.1 < gap.2 ∧ gap.2 ≤ stop ∧
      ∀ e ∈ es, e.stop ≤ gap.1 ∨ gap.2 ≤ e.start := by
  induction es generalizing cursor with
  | nil =>
      rw [gapsFrom] at hgap
      split at hgap
      · rename_i hlt
        obtain rfl := List.mem_singleton.mp hgap
        exact ⟨le_refl _, hlt, le_refl _, by simp⟩
      · cases hgap
  | cons e es ih =>
      obtain ⟨hne, hle, hwf⟩ := WellFormed.cons_iff.mp h
      have hce := hes e List.mem_cons_self
      rw [gapsFrom, if_pos hce] at hgap
      split at hgap
      · rename_i hlt
        rcases List.mem_append.mp hgap with hgap | hgap
        · split at hgap
          · rename_i hcursor
            obtain rfl := List.mem_singleton.mp hgap
            refine ⟨le_refl _, hcursor, hlt.le, ?_⟩
            intro f hf
            rcases List.mem_cons.mp hf with rfl | hf
            · exact .inr (le_refl _)
            · exact .inr (hne.le.trans (hle f hf))
          · cases hgap
        · have htail : ∀ f ∈ es, e.stop < f.stop := fun f hf =>
            (hle f hf).trans_lt (hwf.nonempty f hf)
          obtain ⟨hlo, hlt', hhi, hout⟩ := ih hwf htail hgap
          refine ⟨hce.le.trans hlo, hlt', hhi, ?_⟩
          intro f hf
          rcases List.mem_cons.mp hf with rfl | hf
          · exact .inl hlo
          · exact hout f hf
      · rename_i hge
        split at hgap
        · rename_i hlt
          obtain rfl := List.mem_singleton.mp hgap
          refine ⟨le_refl _, hlt, le_refl _, ?_⟩
          intro f hf
          rcases List.mem_cons.mp hf with rfl | hf
          · exact .inr (not_lt.mp hge)
          · exact .inr ((not_lt.mp hge).trans (hne.le.trans (hle f hf)))
        · cases hgap

/-- Every free part of the range lies in one of them. -/
theorem gapsFrom_complete {es : List (Entry K V)} (h : WellFormed es) {cursor x y : K}
    (hes : ∀ e ∈ es, cursor < e.stop) (hx : cursor ≤ x) (hxy : x < y) (hy : y ≤ stop)
    (hfree : ∀ e ∈ es, e.stop ≤ x ∨ y ≤ e.start) :
    ∃ gap ∈ gapsFrom stop cursor es, gap.1 ≤ x ∧ y ≤ gap.2 := by
  have hcursor : cursor < stop := hx.trans_lt (hxy.trans_le hy)
  induction es generalizing cursor with
  | nil =>
      rw [gapsFrom, if_pos hcursor]
      exact ⟨_, List.mem_cons_self, hx, hy⟩
  | cons e es ih =>
      obtain ⟨hne, hle, hwf⟩ := WellFormed.cons_iff.mp h
      have hce := hes e List.mem_cons_self
      rw [gapsFrom, if_pos hce]
      split
      · rename_i hlt
        rcases hfree e List.mem_cons_self with hout | hout
        · have htail : ∀ f ∈ es, e.stop < f.stop := fun f hf =>
            (hle f hf).trans_lt (hwf.nonempty f hf)
          obtain ⟨gap, hgap, hin⟩ := ih hwf htail hout
            (fun f hf => hfree f (List.mem_cons_of_mem _ hf))
            (hout.trans_lt (hxy.trans_le hy))
          exact ⟨gap, List.mem_append_right _ hgap, hin⟩
        · refine ⟨(cursor, e.start), List.mem_append_left _ ?_, hx, hout⟩
          rw [if_pos (hx.trans_lt (hxy.trans_le hout))]
          exact List.mem_cons_self
      · exact ⟨_, List.mem_cons_self, hx, hy⟩

/-- The gaps are free parts of the range. -/
theorem getGaps_sound (h : WellFormed m) {gap : K × K} (hgap : gap ∈ getGaps m start stop) :
    start ≤ gap.1 ∧ gap.1 < gap.2 ∧ gap.2 ≤ stop ∧
      ∀ k, gap.1 ≤ k → k < gap.2 → toFun m k = none := by
  obtain ⟨happend, hbefore, hrest⟩ := overlapBegin_spec h start
  rw [getGaps] at hgap
  split at hgap
  · cases hgap
  · obtain ⟨hlo, hlt, hhi, hout⟩ := gapsFrom_sound (overlapBegin_stop h).1 hrest hgap
    refine ⟨hlo, hlt, hhi, (free_iff h hlt).mpr ?_⟩
    intro e he
    rw [← happend, List.mem_append] at he
    rcases he with he | he
    · exact .inl ((hbefore e he).trans hlo)
    · exact hout e he

theorem getGaps_complete (h : WellFormed m) {x y : K} (hx : start ≤ x) (hxy : x < y)
    (hy : y ≤ stop) (hfree : ∀ k, x ≤ k → k < y → toFun m k = none) :
    ∃ gap ∈ getGaps m start stop, gap.1 ≤ x ∧ y ≤ gap.2 := by
  obtain ⟨happend, -, hrest⟩ := overlapBegin_spec h start
  rw [getGaps, if_neg (hx.trans_lt (hxy.trans_le hy)).not_ge]
  refine gapsFrom_complete (overlapBegin_stop h).1 hrest hx hxy hy ?_
  intro e he
  exact (free_iff h hxy).mp hfree e (happend ▸ List.mem_append_right _ he)

/-! Runs. -/

inductive Op (K V : Type)
  | insert (start stop : K) (val : V)
  | remove (start stop : K)
  | clear
deriving DecidableEq, Repr

/-- The operation covers the key. -/
def Op.Covers (k : K) : Op K V → Prop
  | .insert start stop _ => start ≤ k ∧ k < stop
  | .remove start stop => start ≤ k ∧ k < stop
  | .clear => True

instance (k : K) : DecidablePred (Op.Covers (V := V) k)
  | .insert start stop _ => inferInstanceAs (Decidable (start ≤ k ∧ k < stop))
  | .remove start stop => inferInstanceAs (Decidable (start ≤ k ∧ k < stop))
  | .clear => inferInstanceAs (Decidable True)

/-- What an operation gives to the keys it covers. -/
def Op.val : Op K V → Option V
  | .insert _ _ v => some v
  | .remove _ _ => none
  | .clear => none

variable [DecidableEq V]

def apply (m : List (Entry K V)) : Op K V → List (Entry K V)
  | .insert start stop val => insert m start stop val
  | .remove start stop => remove m start stop
  | .clear => []

/-- The map after operations on the empty map. -/
def run (ops : List (Op K V)) : List (Entry K V) := ops.foldl apply []

omit [DecidableEq V] in
/-- The last of the operations that covers the key. -/
def lastCovering (ops : List (Op K V)) (k : K) : Option (Op K V) :=
  (ops.filter fun op => op.Covers k).getLast?

theorem apply_spec (h : WellFormed m) (op : Op K V) :
    WellFormed (apply m op) ∧
      ∀ k, toFun (apply m op) k = if op.Covers k then op.val else toFun m k := by
  cases op with
  | insert start stop val => exact ⟨wellFormed_insert h _ _ _, fun k => toFun_insert h _ _ k val⟩
  | remove start stop => exact ⟨wellFormed_remove h _ _, fun k => toFun_remove h _ _ k⟩
  | clear => exact ⟨.nil, fun k => by simp [apply, toFun, find, Op.Covers, Op.val]⟩

theorem run_spec (ops : List (Op K V)) :
    WellFormed (run ops) ∧ ∀ k, toFun (run ops) k = (lastCovering ops k).bind Op.val := by
  induction ops using List.reverseRecOn with
  | nil => exact ⟨.nil, fun _ => rfl⟩
  | append_singleton ops op ih =>
      have hrun : run (ops ++ [op]) = apply (run ops) op := List.foldl_concat ..
      obtain ⟨hwf, hsame⟩ := apply_spec ih.1 op
      rw [hrun]
      refine ⟨hwf, fun k => ?_⟩
      rw [hsame, ih.2]
      by_cases hk : op.Covers k <;> simp [hk, lastCovering, List.filter_append]

/-- The entries of a map are non-empty, sorted and disjoint; `find` returns the
entry around a key, with the value of the last operation that covered it; an
operation on an empty range does nothing. -/
theorem rangeMap_implements_function (ops : List (Op K V)) :
    WellFormed (run ops) ∧
      (∀ k e, find (run ops) k = some e → e ∈ run ops ∧ e.Covers k) ∧
      (∀ k, (find (run ops) k).map Entry.val = (lastCovering ops k).bind Op.val) ∧
      ∀ start stop, stop ≤ start →
        (∀ val, insert (run ops) start stop val = run ops) ∧
          remove (run ops) start stop = run ops := by
  obtain ⟨hwf, hfun⟩ := run_spec ops
  refine ⟨hwf, ?_, hfun, ?_⟩
  · intro k e he
    exact (find_eq_some_iff hwf).mp he
  · intro start stop hle
    exact ⟨fun val => insert_of_le hle val, remove_of_le hle⟩

end LfiRuntime.RangeMap
