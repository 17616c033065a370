import LfiRuntime.Mmap.RangeMapFunction

/-!
The queries of the range map over a range of keys: gaps, overlaps, and the
entries that overlap.
-/

namespace LfiRuntime.RangeMap

variable {K V : Type} [LinearOrder K] {m es : List (Entry K V)} {e : Entry K V}
  {start stop cursor k : K}

/-- An entry of the map contains the key. -/
def Mapped (m : List (Entry K V)) (k : K) : Prop := ∃ e ∈ m, e.Covers k

/-- The key lies in the gap. -/
def InGap (k : K) (gap : K × K) : Prop := gap.1 ≤ k ∧ k < gap.2

theorem toFun_eq_none_iff_not_mapped (h : WellFormed m) : toFun m k = none ↔ ¬Mapped m k := by
  rw [toFun_eq_none_iff h, Mapped]
  push Not
  rfl

/-- An entry has a key in the range exactly when it begins before the end of the
range and ends after its start. -/
theorem meets_iff (hne : e.start < e.stop) (hlt : start < stop) :
    (∃ k, start ≤ k ∧ k < stop ∧ e.Covers k) ↔ start < e.stop ∧ e.start < stop := by
  constructor
  · rintro ⟨k, hsk, hks, hek, hke⟩
    exact ⟨hsk.trans_lt hke, hek.trans_lt hks⟩
  · rintro ⟨hse, hes⟩
    exact ⟨max e.start start, le_max_right _ _, max_lt hes hlt, le_max_left _ _, max_lt hne hse⟩

/-- After an entry that ends past the cursor, the rest of the entries end past it. -/
theorem WellFormed.past (h : WellFormed (e :: es)) : ∀ f ∈ es, e.stop < f.stop := by
  obtain ⟨-, hle, hwf⟩ := WellFormed.cons_iff.mp h
  intro f hf
  exact (hle f hf).trans_lt (hwf.nonempty f hf)

/-- The gaps increase, and no two of them touch. -/
theorem gapsFrom_apart (h : WellFormed es) (hes : ∀ e ∈ es, cursor < e.stop) :
    (gapsFrom stop cursor es).Pairwise fun a b => a.2 < b.1 := by
  induction es generalizing cursor with
  | nil =>
      rw [gapsFrom]
      split
      · exact List.pairwise_singleton _ _
      · exact List.Pairwise.nil
  | cons e es ih =>
      obtain ⟨hne, -, hwf⟩ := WellFormed.cons_iff.mp h
      rw [gapsFrom, if_pos (hes e List.mem_cons_self)]
      split
      · refine List.pairwise_append.mpr ⟨?_, ih hwf h.past, ?_⟩
        · split
          · exact List.pairwise_singleton _ _
          · exact List.Pairwise.nil
        · intro a ha b hb
          split at ha
          · obtain rfl := List.mem_singleton.mp ha
            exact hne.trans_le (gapsFrom_sound hwf h.past hb).1
          · cases ha
      · split
        · exact List.pairwise_singleton _ _
        · exact List.Pairwise.nil

/-- Every key that no entry contains is in a gap. -/
theorem gapsFrom_covers (h : WellFormed es) (hes : ∀ e ∈ es, cursor < e.stop) (hk : cursor ≤ k)
    (hstop : k < stop) (hfree : ∀ e ∈ es, ¬e.Covers k) :
    ∃ gap ∈ gapsFrom stop cursor es, InGap k gap := by
  have hcursor : cursor < stop := hk.trans_lt hstop
  induction es generalizing cursor with
  | nil =>
      rw [gapsFrom, if_pos hcursor]
      exact ⟨_, List.mem_cons_self, hk, hstop⟩
  | cons e es ih =>
      obtain ⟨-, -, hwf⟩ := WellFormed.cons_iff.mp h
      rw [gapsFrom, if_pos (hes e List.mem_cons_self)]
      split
      · rcases lt_or_ge k e.start with hbefore | hafter
        · refine ⟨(cursor, e.start), List.mem_append_left _ ?_, hk, hbefore⟩
          rw [if_pos (hk.trans_lt hbefore)]
          exact List.mem_cons_self
        · have hpast : e.stop ≤ k := by
            by_contra hin
            exact hfree e List.mem_cons_self ⟨hafter, not_le.mp hin⟩
          obtain ⟨gap, hgap, hin⟩ := ih hwf h.past hpast
            (fun f hf => hfree f (List.mem_cons_of_mem _ hf)) (hpast.trans_lt hstop)
          exact ⟨gap, List.mem_append_right _ hgap, hin⟩
      · exact ⟨_, List.mem_cons_self, hk, hstop⟩

theorem getGaps_apart (h : WellFormed m) (start stop : K) :
    (getGaps m start stop).Pairwise fun a b => a.2 < b.1 := by
  rw [getGaps]
  split
  · exact List.Pairwise.nil
  · exact gapsFrom_apart (overlapBegin_stop h).1 (overlapBegin_stop h).2

/-- The keys of the gaps are the keys of the range that are not mapped. -/
theorem getGaps_keys (h : WellFormed m) :
    (∃ gap ∈ getGaps m start stop, InGap k gap) ↔
      start ≤ k ∧ k < stop ∧ ¬Mapped m k := by
  constructor
  · rintro ⟨gap, hgap, hlo, hhi⟩
    obtain ⟨hstart, -, hstop, hfree⟩ := getGaps_sound h hgap
    refine ⟨hstart.trans hlo, hhi.trans_le hstop, ?_⟩
    exact (toFun_eq_none_iff_not_mapped h).mp (hfree k hlo hhi)
  · rintro ⟨hlo, hhi, hfree⟩
    obtain ⟨happend, -, hrest⟩ := overlapBegin_spec h start
    rw [getGaps, if_neg (hlo.trans_lt hhi).not_ge]
    refine gapsFrom_covers (overlapBegin_stop h).1 hrest hlo hhi ?_
    intro e he hek
    exact hfree ⟨e, happend ▸ List.mem_append_right _ he, hek⟩

theorem overlaps_iff_mapped (h : WellFormed m) (hlt : start < stop) :
    overlaps m start stop = true ↔ ∃ k, start ≤ k ∧ k < stop ∧ Mapped m k := by
  rw [overlaps_iff h hlt]
  constructor
  · rintro ⟨e, he, hmeets⟩
    obtain ⟨k, hsk, hks, hek⟩ := (meets_iff (h.nonempty e he) hlt).mpr hmeets
    exact ⟨k, hsk, hks, e, he, hek⟩
  · rintro ⟨k, hsk, hks, e, he, hek⟩
    exact ⟨e, he, (meets_iff (h.nonempty e he) hlt).mp ⟨k, hsk, hks, hek⟩⟩

/-- The entries come from the map, in its order. -/
theorem getOverlapping_sublist (h : WellFormed m) (start stop : K) :
    (getOverlapping m start stop).Sublist m := by
  obtain ⟨happend, -, -⟩ := overlapBegin_spec h start
  rw [getOverlapping]
  split
  · exact List.nil_sublist m
  · refine (List.takeWhile_sublist _).trans ?_
    have hright := List.sublist_append_right (overlapBegin m start).1 (overlapBegin m start).2
    rwa [happend] at hright

/-- On a well-formed map, `get_gaps` gives the keys of a range that are not mapped as
increasing intervals that do not touch, `overlaps` tells whether a key of the range is
mapped, and `get_overlapping` gives the entries with a key in the range, in the order
of the map and once each. -/
theorem queries_exact (h : WellFormed m) (hlt : start < stop) :
    ((∀ gap ∈ getGaps m start stop, start ≤ gap.1 ∧ gap.1 < gap.2 ∧ gap.2 ≤ stop) ∧
        ((getGaps m start stop).Pairwise fun a b => a.2 < b.1) ∧
        ∀ k, (∃ gap ∈ getGaps m start stop, InGap k gap) ↔
          start ≤ k ∧ k < stop ∧ ¬Mapped m k) ∧
      (overlaps m start stop = true ↔ ∃ k, start ≤ k ∧ k < stop ∧ Mapped m k) ∧
      (getOverlapping m start stop).Sublist m ∧
      ((getOverlapping m start stop).Pairwise fun a b => a.start < b.start) ∧
      ∀ e, e ∈ getOverlapping m start stop ↔
        e ∈ m ∧ ∃ k, start ≤ k ∧ k < stop ∧ e.Covers k := by
  refine ⟨⟨?_, getGaps_apart h _ _, fun k => getGaps_keys h⟩, overlaps_iff_mapped h hlt,
    getOverlapping_sublist h _ _, (wellFormed_getOverlapping _ _ h).starts, ?_⟩
  · intro gap hgap
    obtain ⟨hlo, hne, hhi, -⟩ := getGaps_sound h hgap
    exact ⟨hlo, hne, hhi⟩
  · intro e
    rw [mem_getOverlapping_iff h hlt]
    constructor
    · rintro ⟨he, hmeets⟩
      exact ⟨he, (meets_iff (h.nonempty e he) hlt).mpr hmeets⟩
    · rintro ⟨he, hkey⟩
      exact ⟨he, (meets_iff (h.nonempty e he) hlt).mp hkey⟩

/-- A range from inside an entry to where another begins. -/
theorem queries_exact_between_entries :
    let m : List (Entry Nat Bool) := [⟨2, 4, true⟩, ⟨4, 5, false⟩, ⟨8, 9, true⟩]
    ((∀ gap ∈ getGaps m 3 8, 3 ≤ gap.1 ∧ gap.1 < gap.2 ∧ gap.2 ≤ 8) ∧
        ((getGaps m 3 8).Pairwise fun a b => a.2 < b.1) ∧
        ∀ k, (∃ gap ∈ getGaps m 3 8, InGap k gap) ↔ 3 ≤ k ∧ k < 8 ∧ ¬Mapped m k) ∧
      (overlaps m 3 8 = true ↔ ∃ k, 3 ≤ k ∧ k < 8 ∧ Mapped m k) ∧
      (getOverlapping m 3 8).Sublist m ∧
      ((getOverlapping m 3 8).Pairwise fun a b => a.start < b.start) ∧
      ∀ e, e ∈ getOverlapping m 3 8 ↔ e ∈ m ∧ ∃ k, 3 ≤ k ∧ k < 8 ∧ e.Covers k :=
  queries_exact ⟨by decide, by decide⟩ (by decide)

example : getGaps [(⟨2, 4, true⟩ : Entry Nat Bool), ⟨4, 5, false⟩, ⟨8, 9, true⟩] 3 8 = [(5, 8)] := by
  decide

end LfiRuntime.RangeMap
