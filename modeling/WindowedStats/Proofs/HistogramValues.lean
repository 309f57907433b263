import Mathlib.Algebra.BigOperators.Group.List.Basic
import Mathlib.Algebra.Order.Ring.Int
import Mathlib.Data.List.Nodup
import WindowedStats.Histogram.Basic

/-!
# A histogram is a summary of its values

A histogram never sees its values together: each of them moves five figures and one count, and the
slot is found by walking along the inner marks.  `Summary.ofValues` is the same summary worked out
from the list of all values, with the interval of each bucket written out.

Two facts carry the comparison.  On ascending marks the walk stops at the bucket whose interval
holds the value (`slot_eq_iff`).  And a histogram that has recorded some values holds their figures
(`Histogram.Holds`), which one more value preserves.

`summary_eq_ofValues` states the agreement together with the condition under which a list of marks
makes a histogram at all.
-/

namespace WindowedStats

/-! ## The slot of a value -/

namespace Thresholds

theorem exists_ofList_iff (marks : List Int) :
    (∃ t, ofList marks = .ok t) ↔ 2 ≤ marks.length ∧ marks.Pairwise (· < ·) := by
  simp only [ofList_eq_ok_iff]
  constructor
  · rintro ⟨t, rfl⟩
    exact ⟨t.two_le_length, t.ascending⟩
  · rintro ⟨hlen, hasc⟩
    exact ⟨⟨marks, hlen, hasc⟩, rfl⟩

/-- The walk along ascending marks passes a mark exactly if the value has reached it. -/
theorem lt_length_takeWhile_iff {l : List Int} (hl : l.Pairwise (· < ·)) {v : Int} {i : Nat} :
    i < (l.takeWhile (· ≤ v)).length ↔ ∃ h : i < l.length, l[i] ≤ v := by
  induction l generalizing i with
  | nil => simp
  | cons a rest ih =>
      obtain ⟨ha, hrest⟩ := List.pairwise_cons.mp hl
      by_cases hav : a ≤ v
      · rw [List.takeWhile_cons_of_pos (by simpa using hav)]
        cases i with
        | zero => simp [hav]
        | succ i => simpa using ih hrest
      · rw [List.takeWhile_cons_of_neg (by simpa using hav)]
        constructor
        · intro h
          exact absurd h (Nat.not_lt_zero i)
        · rintro ⟨h, hv⟩
          cases i with
          | zero => exact absurd hv hav
          | succ i =>
              have := ha _ (List.getElem_mem (Nat.lt_of_succ_lt_succ h))
              simp only [List.getElem_cons_succ] at hv
              omega

theorem lt_slot_iff {t : Thresholds} {v : Int} {j : Nat} :
    j < t.slot v ↔ ∃ h : j + 2 < t.marks.length, t.marks[j + 1] ≤ v := by
  have hasc : t.inner.Pairwise (· < ·) :=
    t.ascending.sublist ((List.dropLast_sublist _).trans (List.tail_sublist _))
  rw [slot, lt_length_takeWhile_iff hasc]
  have hlen : t.inner.length = t.marks.length - 2 := by simp [inner]; omega
  constructor
  · rintro ⟨h, hv⟩
    exact ⟨by omega, by simpa [inner] using hv⟩
  · rintro ⟨h, hv⟩
    exact ⟨by omega, by simpa [inner] using hv⟩

theorem contains_iff {t : Thresholds} {v : Int} :
    t.contains v = true ↔ t.first ≤ v ∧ v ≤ t.last := by
  simp [contains]

theorem first_eq (t : Thresholds) (h : 0 < t.marks.length) : t.first = t.marks[0] :=
  List.head_eq_getElem _

theorem last_eq (t : Thresholds) (h : t.marks.length - 1 < t.marks.length) :
    t.last = t.marks[t.marks.length - 1] :=
  List.getLast_eq_getElem _

/-- The slot of a value that some slot holds is the one whose interval holds it: the lower mark
belongs to the interval, and the upper one only to the last. -/
theorem slot_eq_iff {t : Thresholds} {v : Int} (hv : t.contains v = true) {i : Nat}
    (hi : i + 1 < t.marks.length) :
    t.slot v = i ↔
      t.marks[i] ≤ v ∧ (v < t.marks[i + 1] ∨ i + 2 = t.marks.length ∧ v = t.marks[i + 1]) := by
  obtain ⟨hfirst, hlast⟩ := contains_iff.mp hv
  rw [first_eq t (by omega)] at hfirst
  rw [last_eq t (by omega)] at hlast
  constructor
  · rintro rfl
    refine ⟨?_, ?_⟩
    · rcases Nat.eq_zero_or_pos (t.slot v) with h0 | hpos
      · simpa only [h0] using hfirst
      · obtain ⟨_, hle⟩ := lt_slot_iff.mp (Nat.sub_lt hpos Nat.one_pos)
        simpa only [Nat.sub_add_cancel hpos] using hle
    · rcases Nat.lt_or_ge (t.slot v + 2) t.marks.length with hlt | hge
      · refine Or.inl (Int.not_le.mp ?_)
        intro hle
        exact Nat.lt_irrefl _ (lt_slot_iff.mpr ⟨hlt, hle⟩)
      · have hend : t.marks.length - 1 = t.slot v + 1 := by omega
        simp only [hend] at hlast
        rcases Int.lt_or_eq_of_le hlast with hlt | heq
        · exact Or.inl hlt
        · exact Or.inr ⟨by omega, heq⟩
  · rintro ⟨hlow, hhigh⟩
    rcases Nat.lt_trichotomy (t.slot v) i with hlt | heq | hgt
    · have hnot : ¬ i - 1 < t.slot v := by omega
      refine absurd (lt_slot_iff.mpr ⟨by omega, ?_⟩) hnot
      simpa only [Nat.sub_add_cancel (Nat.one_le_of_lt hlt)] using hlow
    · exact heq
    · obtain ⟨hin, hle⟩ := lt_slot_iff.mp hgt
      rcases hhigh with h | ⟨hend, -⟩
      · omega
      · omega

end Thresholds

/-! ## The summary of a list of values -/

/-- Whether a value lies between the first and the last of some marks. -/
def covers (marks : List Int) (v : Int) : Bool :=
  marks.head?.any (· ≤ v) && marks.getLast?.any (v ≤ ·)

/-- Whether a value lies in the interval between two neighbouring marks, which holds its upper mark
only if that is the last one. -/
def inInterval (marks : List Int) (low high v : Int) : Bool :=
  low ≤ v && (v < high || v = high && marks.getLast? = some high)

/-- The number of values in each interval of some marks. -/
def bucketsOf (marks vs : List Int) : List Bucket :=
  (marks.zip marks.tail).map fun (low, high) =>
    ⟨low, high, vs.countP (inInterval marks low high)⟩

theorem bucketsOf_cons (a b : Int) (rest vs : List Int) :
    bucketsOf (a :: b :: rest) vs =
      ⟨a, b, vs.countP (inInterval (a :: b :: rest) a b)⟩ :: bucketsOf (b :: rest) vs := by
  have hlast : inInterval (a :: b :: rest) = inInterval (b :: rest) := by
    funext low high v
    rw [inInterval, inInterval, List.getLast?_cons_cons]
  simp only [bucketsOf, List.tail_cons, List.zip_cons_cons, List.map_cons, hlast]

theorem map_high_bucketsOf (marks vs : List Int) :
    (bucketsOf marks vs).map Bucket.high = marks.tail := by
  rw [bucketsOf, List.map_map]
  exact List.map_snd_zip (by rw [List.length_tail]; omega)

theorem map_low_bucketsOf (marks vs : List Int) :
    (bucketsOf marks vs).map Bucket.low = marks.dropLast := by
  rw [bucketsOf, List.map_map]
  refine List.ext_getElem (by simp) ?_
  intro i hi hi'
  simp

/-- The upper edges of the buckets between ascending marks ascend, and are marks. -/
theorem pairwise_high_bucketsOf {marks : List Int} (hasc : marks.Pairwise (· < ·)) (vs : List Int) :
    (bucketsOf marks vs).Pairwise (·.high < ·.high) := by
  rw [← List.pairwise_map (f := Bucket.high), map_high_bucketsOf]
  exact hasc.sublist (List.tail_sublist marks)

theorem high_mem_of_mem_bucketsOf {marks vs : List Int} {b : Bucket} (hb : b ∈ bucketsOf marks vs) :
    b.high ∈ marks :=
  List.mem_of_mem_tail (map_high_bucketsOf marks vs ▸ List.mem_map_of_mem hb)

/-- So do their lower edges. -/
theorem pairwise_low_bucketsOf {marks : List Int} (hasc : marks.Pairwise (· < ·)) (vs : List Int) :
    (bucketsOf marks vs).Pairwise (·.low < ·.low) := by
  rw [← List.pairwise_map (f := Bucket.low), map_low_bucketsOf]
  exact hasc.sublist (List.dropLast_sublist marks)

theorem low_mem_of_mem_bucketsOf {marks vs : List Int} {b : Bucket} (hb : b ∈ bucketsOf marks vs) :
    b.low ∈ marks :=
  List.dropLast_subset marks (map_low_bucketsOf marks vs ▸ List.mem_map_of_mem hb)

/-- The summary of some values, of which those that the marks do not cover are discarded. -/
def Summary.ofValues (marks vs : List Int) : Summary :=
  let kept := vs.filter (covers marks)
  { average :=
      if kept = [] then 0.0 / 0.0 else Float.ofInt kept.sum / Float.ofNat kept.length
    greatest := kept.max?
    least := kept.min?
    sum := kept.sum
    accepted := kept.length
    discarded := vs.countP (!covers marks ·)
    distribution := ⟨bucketsOf marks kept⟩ }

theorem min?_perm {vs ws : List Int} (h : vs.Perm ws) : vs.min? = ws.min? := by
  cases hw : ws.min? with
  | none =>
      rw [List.min?_eq_none_iff] at hw ⊢
      exact (hw ▸ h).eq_nil
  | some a =>
      rw [List.min?_eq_some_iff] at hw ⊢
      exact ⟨h.mem_iff.mpr hw.1, fun b hb => hw.2 b (h.mem_iff.mp hb)⟩

theorem max?_perm {vs ws : List Int} (h : vs.Perm ws) : vs.max? = ws.max? := by
  cases hw : ws.max? with
  | none =>
      rw [List.max?_eq_none_iff] at hw ⊢
      exact (hw ▸ h).eq_nil
  | some a =>
      rw [List.max?_eq_some_iff] at hw ⊢
      exact ⟨h.mem_iff.mpr hw.1, fun b hb => hw.2 b (h.mem_iff.mp hb)⟩

/-- The order of the values does not matter. -/
theorem Summary.ofValues_perm (marks : List Int) {vs ws : List Int} (h : vs.Perm ws) :
    Summary.ofValues marks vs = Summary.ofValues marks ws := by
  have hkept := h.filter (covers marks)
  have hempty : vs.filter (covers marks) = [] ↔ ws.filter (covers marks) = [] := by
    rw [← List.length_eq_zero_iff, hkept.length_eq, List.length_eq_zero_iff]
  simp only [Summary.ofValues, bucketsOf, hempty, hkept.sum_eq, hkept.length_eq, max?_perm hkept,
    min?_perm hkept, h.countP_eq, hkept.countP_eq]

/-! ## What a histogram holds -/

namespace Histogram

/-- The histogram has the thresholds `t` and the figures of the values `vs`. -/
structure Holds (h : Histogram) (t : Thresholds) (vs : List Int) : Prop where
  thresholds_eq : h.tally.thresholds = t
  counts_eq : h.tally.counts =
    (List.range t.size).map fun i => (vs.filter t.contains).countP (t.slot · = i)
  sum_eq : h.sum = (vs.filter t.contains).sum
  accepted_eq : h.accepted = (vs.filter t.contains).length
  least_eq : h.least = (vs.filter t.contains).min?
  greatest_eq : h.greatest = (vs.filter t.contains).max?
  discarded_eq : h.discarded = vs.countP (!t.contains ·)

theorem holds_empty (t : Thresholds) (figureLabel bucketLabel : String) :
    (empty t figureLabel bucketLabel).Holds t [] where
  thresholds_eq := rfl
  counts_eq := by simp [empty, Tally.empty, List.map_const']
  sum_eq := rfl
  accepted_eq := rfl
  least_eq := rfl
  greatest_eq := rfl
  discarded_eq := rfl

theorem min?_append_singleton (vs : List Int) (v : Int) :
    (vs ++ [v]).min? = some (vs.min?.elim v (min · v)) := by
  cases vs with
  | nil => rfl
  | cons a rest =>
      rw [List.cons_append, List.min?_cons', List.min?_cons', List.foldl_append]
      rfl

theorem max?_append_singleton (vs : List Int) (v : Int) :
    (vs ++ [v]).max? = some (vs.max?.elim v (max · v)) := by
  cases vs with
  | nil => rfl
  | cons a rest =>
      rw [List.cons_append, List.max?_cons', List.max?_cons', List.foldl_append]
      rfl

theorem Holds.push_discarded {h : Histogram} {t : Thresholds} {vs : List Int} (hh : h.Holds t vs)
    {v : Int} (hv : t.contains v = false) :
    h.record v = ({ h with discarded := h.discarded + 1 }, false) ∧
      (h.push v).Holds t (vs ++ [v]) := by
  have hcount : h.tally.count? v = none :=
    Tally.count?_eq_none_iff.mpr (by rw [hh.thresholds_eq]; exact hv)
  have hrec := record_of_not_contains hcount
  refine ⟨hrec, ?_⟩
  have hkept : (vs ++ [v]).filter t.contains = vs.filter t.contains := by simp [hv]
  rw [push, hrec]
  constructor
  · exact hh.thresholds_eq
  · rw [hkept]; exact hh.counts_eq
  · rw [hkept]; exact hh.sum_eq
  · rw [hkept]; exact hh.accepted_eq
  · rw [hkept]; exact hh.least_eq
  · rw [hkept]; exact hh.greatest_eq
  · simp [hh.discarded_eq, hv]

/-- Counting one more value in its slot. -/
theorem modify_slot (t : Thresholds) (kept : List Int) (v : Int) :
    ((List.range t.size).map fun i => kept.countP (t.slot · = i)).modify (t.slot v) (· + 1) =
      (List.range t.size).map fun i => (kept ++ [v]).countP (t.slot · = i) := by
  apply List.ext_getElem (by simp)
  intro i h₁ h₂
  simp only [List.getElem_modify, List.getElem_map, List.getElem_range, List.countP_append,
    List.countP_singleton]
  by_cases hi : t.slot v = i
  · simp [hi]
  · simp [hi]

theorem Holds.push_accepted {h : Histogram} {t : Thresholds} {vs : List Int} (hh : h.Holds t vs)
    {v : Int} (hv : t.contains v = true) :
    (h.record v).2 = true ∧ (h.push v).Holds t (vs ++ [v]) := by
  have hcont : h.tally.thresholds.contains v = true := by rw [hh.thresholds_eq]; exact hv
  have hkept : (vs ++ [v]).filter t.contains = vs.filter t.contains ++ [v] := by simp [hv]
  simp only [push, record, Tally.count?, if_pos hcont, true_and]
  refine ⟨hh.thresholds_eq, ?_, ?_, ?_, ?_, ?_, ?_⟩
  · show h.tally.counts.modify (h.tally.thresholds.slot v) (· + 1) = _
    rw [hkept, hh.counts_eq, hh.thresholds_eq, modify_slot]
  · rw [hkept, List.sum_append_int, ← hh.sum_eq]; simp
  · rw [hkept, List.length_append, ← hh.accepted_eq]; rfl
  · rw [hkept, min?_append_singleton, ← hh.least_eq]
  · rw [hkept, max?_append_singleton, ← hh.greatest_eq]
  · simp [hh.discarded_eq, hv]

theorem Holds.record_snd {h : Histogram} {t : Thresholds} {vs : List Int} (hh : h.Holds t vs)
    (v : Int) : (h.record v).2 = t.contains v := by
  cases hv : t.contains v with
  | false => exact congrArg Prod.snd (hh.push_discarded hv).1
  | true => exact (hh.push_accepted hv).1

theorem Holds.push {h : Histogram} {t : Thresholds} {vs : List Int} (hh : h.Holds t vs) (v : Int) :
    (h.push v).Holds t (vs ++ [v]) := by
  cases hv : t.contains v with
  | false => exact (hh.push_discarded hv).2
  | true => exact (hh.push_accepted hv).2

theorem Holds.pushes {h : Histogram} {t : Thresholds} {vs : List Int} (hh : h.Holds t vs)
    (ws : List Int) : (ws.foldl Histogram.push h).Holds t (vs ++ ws) := by
  induction ws generalizing h vs with
  | nil => simpa using hh
  | cons w rest ih => simpa using ih (hh.push w)

/-! ## From slots to buckets -/

theorem covers_marks (t : Thresholds) (v : Int) : covers t.marks v = t.contains v := by
  rw [covers, Thresholds.contains, Thresholds.first, Thresholds.last,
    List.head?_eq_some_head t.marks_ne_nil, List.getLast?_eq_some_getLast t.marks_ne_nil]
  rfl

/-- On ascending marks only the last interval ends at the last mark. -/
theorem getLast?_eq_mark_iff (t : Thresholds) {i : Nat} (hi : i + 1 < t.marks.length) :
    t.marks.getLast? = some t.marks[i + 1] ↔ i + 2 = t.marks.length := by
  have hnodup : t.marks.Nodup := t.ascending.imp Int.ne_of_lt
  rw [List.getLast?_eq_some_getLast t.marks_ne_nil, List.getLast_eq_getElem, Option.some_inj,
    hnodup.getElem_inj_iff]
  omega

theorem inInterval_iff_slot {t : Thresholds} {v : Int} (hv : t.contains v = true) {i : Nat}
    (hi : i + 1 < t.marks.length) :
    inInterval t.marks t.marks[i] t.marks[i + 1] v = true ↔ t.slot v = i := by
  rw [Thresholds.slot_eq_iff hv hi, ← getLast?_eq_mark_iff t hi]
  simp [inInterval, and_comm]

theorem Holds.distribution_eq {h : Histogram} {t : Thresholds} {vs : List Int}
    (hh : h.Holds t vs) :
    h.tally.distribution = ⟨bucketsOf t.marks (vs.filter t.contains)⟩ := by
  have hlen : h.tally.counts.length = t.marks.length - 1 := by
    rw [h.tally.length_counts, hh.thresholds_eq, Thresholds.size]
  simp only [Tally.distribution, bucketsOf, hh.thresholds_eq, Distribution.mk.injEq]
  apply List.ext_getElem (by simp [hlen])
  intro i h₁ h₂
  have hi : i + 1 < t.marks.length := by
    simp only [List.length_map, List.length_zip, List.length_tail] at h₂
    omega
  simp only [List.getElem_zipWith, List.getElem_map, List.getElem_zip, List.getElem_tail,
    hh.counts_eq, List.getElem_range, Bucket.mk.injEq, true_and]
  apply List.countP_congr
  intro v hv
  rw [inInterval_iff_slot (List.mem_filter.mp hv).2 hi]
  exact decide_eq_true_iff

theorem countP_lt_succ (f : Int → Nat) (vs : List Int) (n : Nat) :
    vs.countP (f · < n + 1) = vs.countP (f · < n) + vs.countP (f · = n) := by
  induction vs with
  | nil => rfl
  | cons v rest ih =>
      simp only [List.countP_cons, ih, decide_eq_true_eq]
      rcases Nat.lt_trichotomy (f v) n with hlt | heq | hgt
      · simp [hlt, hlt.ne, hlt.trans n.lt_succ_self]; omega
      · simp [heq]; omega
      · simp [hgt.ne', hgt.not_gt, Nat.not_lt.mpr hgt]

/-- The values in the first `n` slots. -/
theorem sum_countP_slots (f : Int → Nat) (vs : List Int) (n : Nat) :
    ((List.range n).map fun i => vs.countP (f · = i)).sum = vs.countP (f · < n) := by
  induction n with
  | zero => simp
  | succ n ih =>
      rw [List.range_succ, List.map_append, List.sum_append_nat, ih, countP_lt_succ]
      simp

theorem sumCounts_zipWith (edges : List (Int × Int)) (counts : List Nat)
    (h : edges.length = counts.length) :
    Distribution.sumCounts (List.zipWith (fun e n => ⟨e.1, e.2, n⟩) edges counts) =
      counts.sum := by
  induction edges generalizing counts with
  | nil =>
      rw [List.length_eq_zero_iff.mp h.symm]
      rfl
  | cons e rest ih =>
      cases counts with
      | nil => cases h
      | cons n counts => simp [Distribution.sumCounts, ih counts (Nat.succ.inj h)]

theorem Holds.total_eq {h : Histogram} {t : Thresholds} {vs : List Int} (hh : h.Holds t vs) :
    h.tally.distribution.total = h.accepted := by
  have hlen : (t.marks.zip t.marks.tail).length = h.tally.counts.length := by
    rw [h.tally.length_counts, hh.thresholds_eq, Thresholds.size]
    simp
  have hall : ∀ v ∈ vs.filter t.contains, decide (t.slot v < t.size) = true :=
    fun v _ => decide_eq_true (t.slot_lt_size v)
  rw [Distribution.total, Tally.distribution, hh.thresholds_eq, sumCounts_zipWith _ _ hlen,
    hh.counts_eq, sum_countP_slots, List.countP_eq_length.mpr hall, hh.accepted_eq]

theorem Holds.summary_eq {h : Histogram} {t : Thresholds} {vs : List Int} (hh : h.Holds t vs) :
    h.summary = Summary.ofValues t.marks vs := by
  have hcovers : covers t.marks = t.contains := funext (covers_marks t)
  have haverage : h.average =
      if vs.filter t.contains = [] then 0.0 / 0.0
      else Float.ofInt (vs.filter t.contains).sum / Float.ofNat (vs.filter t.contains).length := by
    rw [average, hh.accepted_eq, hh.sum_eq]
    by_cases hnil : vs.filter t.contains = []
    · rw [if_pos hnil, if_neg (by simp [hnil])]
    · rw [if_neg hnil, if_pos (List.length_pos_iff.mpr hnil)]
  simp only [summary, Summary.ofValues, hcovers, haverage, hh.sum_eq, hh.accepted_eq, hh.least_eq,
    hh.greatest_eq, hh.discarded_eq, hh.distribution_eq]

theorem ofMarks_eq_ok_iff {marks : List Int} {figureLabel bucketLabel : String} {h : Histogram} :
    ofMarks marks figureLabel bucketLabel = .ok h ↔
      ∃ t : Thresholds, t.marks = marks ∧ empty t figureLabel bucketLabel = h := by
  rw [ofMarks, SetupError.bind_eq_ok_iff]
  simp only [Thresholds.ofList_eq_ok_iff, pure, Except.pure, Except.ok.injEq]

theorem exists_ofMarks_iff (marks : List Int) (figureLabel bucketLabel : String) :
    (∃ h, ofMarks marks figureLabel bucketLabel = .ok h) ↔
      2 ≤ marks.length ∧ marks.Pairwise (· < ·) := by
  rw [← Thresholds.exists_ofList_iff]
  constructor
  · rintro ⟨h, hh⟩
    obtain ⟨t, ht, -⟩ := ofMarks_eq_ok_iff.mp hh
    exact ⟨t, Thresholds.ofList_eq_ok_iff.mpr ht⟩
  · rintro ⟨t, ht⟩
    exact ⟨_, ofMarks_eq_ok_iff.mpr ⟨t, Thresholds.ofList_eq_ok_iff.mp ht, rfl⟩⟩

theorem holds_ofMarks {marks : List Int} {figureLabel bucketLabel : String} {h : Histogram}
    (hh : ofMarks marks figureLabel bucketLabel = .ok h) :
    ∃ t : Thresholds, t.marks = marks ∧ h.Holds t [] := by
  obtain ⟨t, ht, rfl⟩ := ofMarks_eq_ok_iff.mp hh
  exact ⟨t, ht, holds_empty t _ _⟩

/-- Marks make a histogram exactly if there are two of them at least and they ascend.  Then, after
any values, one more value is accepted exactly if the marks cover it, and the summary is that of
the values, in which the counts of the buckets add up to the number of accepted values and the
order of the values leaves no trace. -/
theorem summary_eq_ofValues (marks : List Int) (figureLabel bucketLabel : String) :
    ((∃ h, ofMarks marks figureLabel bucketLabel = .ok h) ↔
      2 ≤ marks.length ∧ marks.Pairwise (· < ·)) ∧
    ∀ h, ofMarks marks figureLabel bucketLabel = .ok h → ∀ vs : List Int,
      (∀ v, ((vs.foldl push h).record v).2 = covers marks v) ∧
      (vs.foldl push h).summary = Summary.ofValues marks vs ∧
      (vs.foldl push h).summary.distribution.total = (vs.foldl push h).summary.accepted ∧
      ∀ ws : List Int, ws.Perm vs → (ws.foldl push h).summary = (vs.foldl push h).summary := by
  refine ⟨exists_ofMarks_iff marks figureLabel bucketLabel, ?_⟩
  intro h hh vs
  obtain ⟨t, rfl, hempty⟩ := holds_ofMarks hh
  have hvs : (vs.foldl push h).Holds t vs := hempty.pushes vs
  refine ⟨?_, hvs.summary_eq, hvs.total_eq, ?_⟩
  · intro v
    rw [hvs.record_snd, covers_marks]
  · intro ws hws
    have hws' : (ws.foldl push h).Holds t ws := hempty.pushes ws
    rw [hws'.summary_eq, hvs.summary_eq, Summary.ofValues_perm _ hws]

/-- Values at both ends, at an inner mark and outside, with an open end. -/
theorem summary_eq_ofValues_open_end :
    ∃ h, ofMarks [0, 10, highestEdge] "" "" = .ok h ∧
      (([10, 5, -1, 0, highestEdge].foldl push h).record (-1)).2 = false ∧
      ([10, 5, -1, 0, highestEdge].foldl push h).summary.distribution =
        ⟨[⟨0, 10, 2⟩, ⟨10, highestEdge, 2⟩]⟩ ∧
      ([10, 5, -1, 0, highestEdge].foldl push h).summary.sum = highestEdge + 15 ∧
      ([10, 5, -1, 0, highestEdge].foldl push h).summary.least = some 0 ∧
      ([10, 5, -1, 0, highestEdge].foldl push h).summary.discarded = 1 := by
  have hspec := summary_eq_ofValues [0, 10, highestEdge] "" ""
  obtain ⟨h, hh⟩ := hspec.1.mpr ⟨by decide, by decide⟩
  obtain ⟨hrecord, hsummary, -, -⟩ := hspec.2 h hh [10, 5, -1, 0, highestEdge]
  refine ⟨h, hh, (hrecord (-1)).trans rfl, ?_⟩
  rw [hsummary]
  exact ⟨rfl, rfl, rfl, rfl⟩

end Histogram

end WindowedStats
