import LfiRuntime.Mmap.RangeMapFunction
import Mathlib.Data.Set.Card

/-!
The range map holds one entry for each maximal run of the function it stands
for, so it is determined by that function.
-/

namespace LfiRuntime.RangeMap

variable {K V : Type} [LinearOrder K] {m m' before after rest : List (Entry K V)}
  {e f it : Entry K V} {start stop : K}

/-- The entries do not touch, or have different values. -/
def Separate (a b : Entry K V) : Prop := a.stop = b.start → a.val ≠ b.val

/-- Entries that touch have different values. -/
def Canonical (m : List (Entry K V)) : Prop := ∀ a ∈ m, ∀ b ∈ m, Separate a b

/-- `size()`. -/
def size (m : List (Entry K V)) : Nat := m.length

theorem canonical_iff (h : WellFormed m) : Canonical m ↔ m.Pairwise Separate := by
  constructor
  · exact fun hc => List.pairwise_of_forall_mem_list hc
  · intro hp
    induction m with
    | nil => exact fun a ha => absurd ha List.not_mem_nil
    | cons x xs ih =>
        obtain ⟨hx, hxs⟩ := List.pairwise_cons.mp hp
        obtain ⟨hne, hle, hwf⟩ := WellFormed.cons_iff.mp h
        intro a ha b hb
        rcases List.mem_cons.mp ha with rfl | hax <;> rcases List.mem_cons.mp hb with rfl | hbx
        · exact fun htouch => absurd htouch hne.ne'
        · exact hx b hbx
        · intro htouch
          exact absurd (hne.trans_le (hle a hax)) (htouch ▸ hwf.nonempty a hax).not_gt
        · exact ih hwf hxs a hax b hbx

/-- Remnants touch only where the entries that they are left of touch. -/
theorem Remnant.touch {a b : Entry K V} (hlt : start < stop) (he : e.start < e.stop)
    (hf : f.start < f.stop) (ha : Remnant start stop e a) (hb : Remnant start stop f b)
    (htouch : a.stop = b.start) : e.stop = f.start ∧ a.val = e.val ∧ b.val = f.val := by
  rcases ha with ⟨hout, rfl⟩ | ⟨-, -, rfl⟩ | ⟨-, hstop, rfl⟩
  · rcases hb with ⟨-, rfl⟩ | ⟨-, -, rfl⟩ | ⟨-, -, rfl⟩
    · exact ⟨htouch, rfl, rfl⟩
    · exact ⟨htouch, rfl, rfl⟩
    · change a.stop = stop at htouch
      rcases hout with hout | hout
      · exact absurd hlt (htouch ▸ hout).not_gt
      · exact absurd he (htouch ▸ hout).not_gt
  · change start = b.start at htouch
    rcases hb with ⟨hout, rfl⟩ | ⟨-, hstart, rfl⟩ | ⟨-, -, rfl⟩
    · rcases hout with hout | hout
      · exact absurd hf (htouch ▸ hout).not_gt
      · exact absurd hlt (htouch ▸ hout).not_gt
    · exact absurd htouch hstart.ne'
    · exact absurd htouch hlt.ne
  · change e.stop = b.start at htouch
    rcases hb with ⟨-, rfl⟩ | ⟨-, hstart, rfl⟩ | ⟨-, -, rfl⟩
    · exact ⟨htouch, rfl, rfl⟩
    · exact absurd (htouch ▸ hstart) (hlt.trans hstop).not_gt
    · exact absurd htouch hstop.ne'

theorem canonical_remove (h : WellFormed m) (hc : Canonical m) (start stop : K) :
    Canonical (remove m start stop) := by
  rcases lt_or_ge start stop with hlt | hle
  · obtain ⟨-, hmem⟩ := remove_spec h hlt
    intro a ha b hb htouch
    obtain ⟨e, he, hea⟩ := (hmem a).mp ha
    obtain ⟨f, hf, hfb⟩ := (hmem b).mp hb
    obtain ⟨heq, hva, hvb⟩ := hea.touch hlt (h.nonempty e he) (h.nonempty f hf) hfb htouch
    rw [hva, hvb]
    exact hc e he f hf heq
  · rwa [remove_of_le hle]

/-! The merges of `coalesce`, around the entry `it`. -/

/-- Once `it` is separate from what comes after it, the merge with the left neighbor
leaves all entries separate. -/
theorem separate_mergeLeft [DecidableEq V] (h : WellFormed (before ++ it :: rest))
    (hbefore : before.Pairwise Separate) (hit : ∀ b ∈ rest, Separate it b)
    (hrest : rest.Pairwise Separate) (hcross : ∀ a ∈ before, ∀ b ∈ rest, Separate a b) :
    (mergeLeft before it rest).Pairwise Separate := by
  obtain ⟨hwf, -, hends⟩ := WellFormed.append_iff.mp h
  rw [mergeLeft]
  cases hl : before.getLast? with
  | none => exact List.pairwise_cons.mpr ⟨hit, hrest⟩
  | some left =>
      obtain ⟨init, rfl⟩ := List.getLast?_eq_some_iff.mp hl
      obtain ⟨hinit, -, hleft⟩ := List.pairwise_append.mp hbefore
      obtain ⟨-, hwfl, hinits⟩ := WellFormed.append_iff.mp hwf
      have hne := hwfl.nonempty left List.mem_cons_self
      have hlast : left ∈ init ++ [left] := List.mem_append_right _ List.mem_cons_self
      simp only [List.dropLast_concat]
      split
      · rename_i heq
        refine List.pairwise_append.mpr ⟨hinit, List.pairwise_cons.mpr ⟨?_, hrest⟩, ?_⟩
        · intro b hb htouch
          change left.val ≠ b.val
          rw [heq.2]
          exact hit b hb htouch
        · intro a ha b hb
          rcases List.mem_cons.mp hb with rfl | hb
          · exact hleft a ha left List.mem_cons_self
          · exact hcross a (List.mem_append_left _ ha) b hb
      · rename_i hneq
        refine List.pairwise_append.mpr ⟨hbefore, List.pairwise_cons.mpr ⟨hit, hrest⟩, ?_⟩
        intro a ha b hb
        rcases List.mem_cons.mp hb with rfl | hb
        · rcases List.mem_append.mp ha with ha | ha
          · intro htouch
            have hle := (hinits a ha left List.mem_cons_self).trans_lt hne
            exact absurd (hends left hlast b List.mem_cons_self) (htouch ▸ hle).not_ge
          · obtain rfl := List.mem_singleton.mp ha
            exact fun htouch hval => hneq ⟨htouch, hval⟩
        · exact hcross a ha b hb

/-- `coalesce` restores what an insertion at `start` may have broken. -/
theorem separate_coalesce [DecidableEq V] (h : WellFormed m)
    (hc : ∀ a ∈ m, ∀ b ∈ m, a.start ≠ start → b.start ≠ start → Separate a b)
    (he : e ∈ m) (hstart : e.start = start) : (coalesce m start).Pairwise Separate := by
  have happend := List.takeWhile_append_dropWhile (p := fun e => decide (e.start < start)) (l := m)
  have hbefore : ∀ a ∈ m.takeWhile fun e => decide (e.start < start), a.start ≠ start := fun a ha =>
    (of_decide_eq_true ((mem_takeWhile_iff (startsBefore h start)).mp ha).2).ne
  have hafter : ∀ a, a ∈ (m.dropWhile fun e => decide (e.start < start)) ↔
      a ∈ m ∧ start ≤ a.start := fun a => by
    rw [mem_dropWhile_iff (startsBefore h start), decide_eq_true_eq, not_lt]
  unfold coalesce
  simp only
  generalize (m.takeWhile fun e => decide (e.start < start)) = before at *
  generalize (m.dropWhile fun e => decide (e.start < start)) = after at *
  subst happend
  have heafter := (hafter e).mpr ⟨he, hstart.ge⟩
  obtain ⟨-, hwf, hends⟩ := WellFormed.append_iff.mp h
  cases after with
  | nil => cases heafter
  | cons it after =>
      have hit : it.start = start := by
        rcases List.mem_cons.mp heafter with rfl | hmem
        · exact hstart
        · have hlt := (List.pairwise_cons.mp hwf.starts).1 e hmem
          exact absurd (hstart ▸ hlt) ((hafter it).mp List.mem_cons_self).2.not_gt
      have hothers : ∀ a ∈ after, a.start ≠ start := fun a ha =>
        hit ▸ ((List.pairwise_cons.mp hwf.starts).1 a ha).ne'
      have hleft : before.Pairwise Separate := by
        refine List.pairwise_of_forall_mem_list fun a ha b hb => ?_
        exact hc a (List.mem_append_left _ ha) b (List.mem_append_left _ hb)
          (hbefore a ha) (hbefore b hb)
      have hright : after.Pairwise Separate := by
        refine List.pairwise_of_forall_mem_list fun a ha b hb => ?_
        exact hc a (List.mem_append_right _ (List.mem_cons_of_mem _ ha)) b
          (List.mem_append_right _ (List.mem_cons_of_mem _ hb)) (hothers a ha) (hothers b hb)
      have hcross : ∀ a ∈ before, ∀ b ∈ after, Separate a b := fun a ha b hb =>
        hc a (List.mem_append_left _ ha) b (List.mem_append_right _ (List.mem_cons_of_mem _ hb))
          (hbefore a ha) (hothers b hb)
      cases after with
      | nil => exact separate_mergeLeft h hleft (by simp) hright hcross
      | cons right rest =>
          obtain ⟨hr, hrest⟩ := List.pairwise_cons.mp hright
          obtain ⟨-, -, hwfr⟩ := WellFormed.cons_iff.mp hwf
          obtain ⟨hne, hle, -⟩ := WellFormed.cons_iff.mp hwfr
          by_cases heq : it.stop = right.start ∧ it.val = right.val
          · simp only [if_pos heq]
            refine separate_mergeLeft (merge_spec h heq.1 heq.2).1 hleft ?_ hrest
              fun a ha b hb => hcross a ha b (List.mem_cons_of_mem _ hb)
            intro b hb htouch
            change it.val ≠ b.val
            rw [heq.2]
            exact hr b hb htouch
          · simp only [if_neg heq]
            refine separate_mergeLeft h hleft ?_ hright hcross
            intro b hb htouch
            rcases List.mem_cons.mp hb with rfl | hb
            · exact fun hval => heq ⟨htouch, hval⟩
            · have hstop := (WellFormed.cons_iff.mp hwf).2.1 right List.mem_cons_self
              exact absurd (hne.trans_le (hle b hb)) (htouch ▸ hstop).not_gt

theorem canonical_insert [DecidableEq V] (h : WellFormed m) (hc : Canonical m) (start stop : K)
    (val : V) : Canonical (insert m start stop val) := by
  rcases lt_or_ge start stop with hlt | hle
  · obtain ⟨hwf, hmem⟩ := remove_spec h hlt
    have hroom : ∀ f ∈ remove m start stop, stop ≤ f.start ∨ f.stop ≤ start := by
      intro f hf
      obtain ⟨e, -, ⟨hout, rfl⟩ | ⟨-, -, rfl⟩ | ⟨-, -, rfl⟩⟩ := (hmem f).mp hf
      · exact hout.symm
      · exact .inr (le_refl _)
      · exact .inl (le_refl _)
    obtain ⟨hwf₁, hmem₁⟩ := mapInsert_spec (e := ⟨start, stop, val⟩) hwf hlt hroom
    refine (canonical_iff (wellFormed_insert h _ _ _)).mpr ?_
    rw [insert, if_neg hlt.not_ge]
    refine separate_coalesce hwf₁ ?_ ((hmem₁ _).mpr (.inl rfl)) rfl
    intro a ha b hb hane hbne
    have hold : ∀ f ∈ mapInsert ⟨start, stop, val⟩ (remove m start stop), f.start ≠ start →
        f ∈ remove m start stop := fun f hf hne =>
      ((hmem₁ f).mp hf).resolve_left fun heq => hne (heq ▸ rfl)
    exact canonical_remove h hc start stop a (hold a ha hane) b (hold b hb hbne)
  · rwa [insert_of_le hle]

/-! The entries are the maximal runs. -/

/-- The function has the value of the entry on all its keys. -/
def Constant (f : K → Option V) (e : Entry K V) : Prop :=
  e.start < e.stop ∧ ∀ k, e.Covers k → f k = some e.val

/-- A range of keys on which the function has one value, and no larger one has. -/
def MaximalRun (f : K → Option V) (e : Entry K V) : Prop :=
  Constant f e ∧ ∀ e', Constant f e' → e.Inside e' → e' = e

theorem constant_of_mem (h : WellFormed m) (he : e ∈ m) : Constant (toFun m) e :=
  ⟨h.nonempty e he, fun _ hek => (toFun_eq_some_iff h).mpr ⟨e, he, hek, rfl⟩⟩

/-- A range on which the map has one value lies in one entry: another one that it
reached into would touch the first. -/
theorem inside_of_constant (h : WellFormed m) (hc : Canonical m) (he : Constant (toFun m) e) :
    ∃ f ∈ m, e.Inside f ∧ f.val = e.val := by
  obtain ⟨hne, hval⟩ := he
  obtain ⟨f, hf, hfk, hfv⟩ := (toFun_eq_some_iff h).mp (hval e.start ⟨le_rfl, hne⟩)
  refine ⟨f, hf, ⟨hfk.1, ?_⟩, hfv⟩
  by_contra hstop
  rw [not_le] at hstop
  obtain ⟨g, hg, hgk, hgv⟩ := (toFun_eq_some_iff h).mp (hval f.stop ⟨hfk.2.le, hstop⟩)
  rcases h.apart hf hg with rfl | hfg | hgf
  · exact absurd hgk.2 (lt_irrefl _)
  · exact hc f hf g hg (hfg.antisymm hgk.1) (hfv.trans hgv.symm)
  · exact absurd (hgk.2.trans_le hgf) (h.nonempty f hf).not_gt

theorem mem_iff_maximalRun (h : WellFormed m) (hc : Canonical m) :
    e ∈ m ↔ MaximalRun (toFun m) e := by
  constructor
  · intro he
    refine ⟨constant_of_mem h he, ?_⟩
    intro e' he' hin
    obtain ⟨f, hf, hin', hval⟩ := inside_of_constant h hc he'
    have hne := h.nonempty e he
    have hef := hin.trans hin'
    obtain rfl := h.eq_of_covers he hf (k := e.start) ⟨le_rfl, hne⟩ ⟨hef.1, hne.trans_le hef.2⟩
    obtain ⟨start, stop, val⟩ := e'
    obtain rfl : start = e.start := hin.1.antisymm hin'.1
    obtain rfl : stop = e.stop := hin'.2.antisymm hin.2
    rw [show val = e.val from hval.symm]
  · rintro ⟨he, hmax⟩
    obtain ⟨f, hf, hin, -⟩ := inside_of_constant h hc he
    exact hmax f (constant_of_mem h hf) hin ▸ hf

theorem size_eq_ncard (h : WellFormed m) (hc : Canonical m) :
    size m = {e | MaximalRun (toFun m) e}.ncard := by
  classical
  have hset : {e | MaximalRun (toFun m) e} = (m.toFinset : Set (Entry K V)) := by
    ext e
    rw [Set.mem_ofPred_eq, ← mem_iff_maximalRun h hc, Finset.mem_coe, List.mem_toFinset]
  have hnodup : m.Nodup := h.starts.imp fun hlt heq => absurd (heq ▸ hlt) (lt_irrefl _)
  rw [hset, Set.ncard_coe_finset, List.toFinset_card_of_nodup hnodup, size]

/-- A map is determined by the function it stands for. -/
theorem eq_of_toFun_eq (h : WellFormed m) (hc : Canonical m) (h' : WellFormed m')
    (hc' : Canonical m') (heq : ∀ k, toFun m k = toFun m' k) : m = m' := by
  have hmem : ∀ e, e ∈ m ↔ e ∈ m' := fun e => by
    rw [mem_iff_maximalRun h hc, mem_iff_maximalRun h' hc', funext heq]
  have hnodup : ∀ {l : List (Entry K V)}, WellFormed l → l.Nodup := fun hl =>
    hl.starts.imp fun hlt heq => absurd (heq ▸ hlt) (lt_irrefl _)
  refine List.Perm.eq_of_pairwise ?_ h.starts h'.starts
    ((List.perm_ext_iff_of_nodup (hnodup h) (hnodup h')).mpr hmem)
  exact fun a b _ _ hab hba => absurd hab hba.not_gt

variable [DecidableEq V]

theorem canonical_run (ops : List (Op K V)) : Canonical (run ops) := by
  induction ops using List.reverseRecOn with
  | nil => exact fun a ha => absurd ha List.not_mem_nil
  | append_singleton ops op ih =>
      have hrun : run (ops ++ [op]) = apply (run ops) op := List.foldl_concat ..
      have hwf := (run_spec ops).1
      rw [hrun]
      cases op with
      | insert start stop val => exact canonical_insert hwf ih _ _ _
      | remove start stop => exact canonical_remove hwf ih _ _
      | clear => exact fun a ha => absurd ha List.not_mem_nil

/-- After any operations on the empty map, entries that touch have different values,
the entries are determined by the function on keys that they stand for, and there are
as many of them as that function has maximal runs. -/
theorem rangeMap_canonical (ops : List (Op K V)) :
    (∀ a ∈ run ops, ∀ b ∈ run ops, a.stop = b.start → a.val ≠ b.val) ∧
      (∀ ops' : List (Op K V), (∀ k, toFun (run ops) k = toFun (run ops') k) →
        run ops = run ops') ∧
      size (run ops) = {e | MaximalRun (toFun (run ops)) e}.ncard := by
  have hwf := (run_spec ops).1
  have hc := canonical_run ops
  refine ⟨hc, fun ops' heq => ?_, size_eq_ncard hwf hc⟩
  exact eq_of_toFun_eq hwf hc (run_spec ops').1 (canonical_run ops') heq

end LfiRuntime.RangeMap
