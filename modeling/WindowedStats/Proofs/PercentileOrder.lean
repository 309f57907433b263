import WindowedStats.Proofs.PercentileBounds

/-!
# The percentile bounds are ordered

The bounds of 99% and of 99.9% come from two searches through the same buckets, which may end at
different ones.  Each of them ends at the percentile bucket of its part: the one before which not
more than that part of the values have been counted, and with which more have
(`Distribution.IsPercentileBucket`).  The search for a greater part passes every bucket that the
search for a smaller one passes, so it ends there or later (`bucketAbove?_le_of_part_le`), and later
buckets have greater upper edges.

`p99_le_p999` draws the conclusions for the bounds.  A bound can only be missing for want of
samples, or because its bucket is the one that has no upper limit, and that is the last one.
-/

namespace WindowedStats

namespace Distribution

/-- A bucket before which not more than `part` of the `whole` of all values have been counted, and
with which more than that have. -/
def IsPercentileBucket (d : Distribution) (part whole : Nat) (b : Bucket) : Prop :=
  ∃ before after, d.buckets = before ++ b :: after ∧
    sumCounts before * whole ≤ d.total * part ∧
    d.total * part < (sumCounts before + b.count) * whole

variable {part whole part' whole' total seen : Nat} {bs : List Bucket} {b : Bucket}

/-! ## Where a search ends -/

theorem bucketAbove?_eq_some_iff (hseen : seen * whole ≤ total * part) :
    bucketAbove? part whole total seen bs = some b ↔
      ∃ before after, bs = before ++ b :: after ∧
        (seen + sumCounts before) * whole ≤ total * part ∧
        total * part < (seen + sumCounts before + b.count) * whole := by
  induction bs generalizing seen with
  | nil => simp [bucketAbove?]
  | cons x rest ih =>
      rw [bucketAbove?]
      by_cases hx : total * part < (seen + x.count) * whole
      · rw [if_pos hx]
        constructor
        · intro hb
          cases hb
          exact ⟨[], rest, rfl, hseen, hx⟩
        · rintro ⟨before, after, hsplit, hbefore, -⟩
          cases before with
          | nil =>
              cases hsplit
              rfl
          | cons y before =>
              cases hsplit
              have hle : (seen + x.count) * whole ≤ (seen + sumCounts (x :: before)) * whole :=
                Nat.mul_le_mul_right whole (by simp only [sumCounts]; omega)
              omega
      · rw [if_neg hx, ih (Nat.not_lt.mp hx)]
        constructor
        · rintro ⟨before, after, rfl, hbefore, hwith⟩
          refine ⟨x :: before, after, rfl, ?_, ?_⟩
          · rwa [sumCounts, ← Nat.add_assoc]
          · rwa [sumCounts, ← Nat.add_assoc]
        · rintro ⟨before, after, hsplit, hbefore, hwith⟩
          cases before with
          | nil =>
              cases hsplit
              exact absurd hwith hx
          | cons y before =>
              cases hsplit
              rw [sumCounts, ← Nat.add_assoc] at hbefore hwith
              exact ⟨before, after, rfl, hbefore, hwith⟩

theorem bucketAbove?_eq_some_iff_isPercentileBucket (d : Distribution) :
    bucketAbove? part whole d.total 0 d.buckets = some b ↔ d.IsPercentileBucket part whole b := by
  rw [bucketAbove?_eq_some_iff (by omega), IsPercentileBucket]
  simp only [Nat.zero_add]

theorem mem_of_bucketAbove? (h : bucketAbove? part whole total seen bs = some b) : b ∈ bs := by
  induction bs generalizing seen with
  | nil => cases h
  | cons x rest ih =>
      rw [bucketAbove?] at h
      split at h
      · cases h
        exact List.mem_cons_self
      · exact List.mem_cons_of_mem x (ih h)

/-- A search that finds nothing has not counted enough. -/
theorem le_of_bucketAbove?_eq_none (hseen : seen * whole ≤ total * part)
    (h : bucketAbove? part whole total seen bs = none) :
    (seen + sumCounts bs) * whole ≤ total * part := by
  induction bs generalizing seen with
  | nil => exact hseen
  | cons x rest ih =>
      rw [bucketAbove?] at h
      split at h
      · cases h
      next hx =>
      rw [sumCounts, ← Nat.add_assoc]
      exact ih (Nat.not_lt.mp hx) h

/-- With any value at all there is a percentile bucket. -/
theorem exists_bucketAbove? (d : Distribution) (hpart : part < whole) (htotal : 0 < d.total) :
    ∃ b, bucketAbove? part whole d.total 0 d.buckets = some b := by
  refine Option.ne_none_iff_exists'.mp ?_
  intro hnone
  have hle := le_of_bucketAbove?_eq_none (by omega) hnone
  rw [Nat.zero_add] at hle
  exact Nat.not_lt.mpr hle (Nat.mul_lt_mul_of_pos_left hpart htotal)

/-! ## A greater part -/

/-- More than the greater part is more than the smaller one. -/
theorem lt_of_part_le (hle : part * whole' ≤ part' * whole) (hwhole : 0 < whole) {n : Nat}
    (h : total * part' < n * whole') : total * part < n * whole := by
  refine Nat.lt_of_mul_lt_mul_right (a := whole') ?_
  calc total * part * whole' = total * (part * whole') := Nat.mul_assoc _ _ _
    _ ≤ total * (part' * whole) := Nat.mul_le_mul_left _ hle
    _ = total * part' * whole := (Nat.mul_assoc _ _ _).symm
    _ < n * whole' * whole := Nat.mul_lt_mul_of_pos_right h hwhole
    _ = n * whole * whole' := Nat.mul_right_comm _ _ _

/-- The search for the smaller part ends at the same bucket or before it. -/
theorem bucketAbove?_le_of_part_le (hle : part * whole' ≤ part' * whole) (hwhole : 0 < whole)
    (hasc : bs.Pairwise (·.high < ·.high)) (hb : bucketAbove? part' whole' total seen bs = some b) :
    ∃ a, bucketAbove? part whole total seen bs = some a ∧ a.high ≤ b.high := by
  induction bs generalizing seen with
  | nil => cases hb
  | cons x rest ih =>
      obtain ⟨hx, hrest⟩ := List.pairwise_cons.mp hasc
      rw [bucketAbove?] at hb ⊢
      by_cases hsmall : total * part < (seen + x.count) * whole
      · rw [if_pos hsmall]
        refine ⟨x, rfl, ?_⟩
        split at hb
        · cases hb
          exact Int.le_refl _
        · exact Int.le_of_lt (hx b (mem_of_bucketAbove? hb))
      · rw [if_neg hsmall]
        rw [if_neg fun hgreat => hsmall (lt_of_part_le hle hwhole hgreat)] at hb
        exact ih hrest hb

end Distribution

/-! ## The bounds -/

theorem Bucket.limit?_eq_some_iff {b : Bucket} {t : Int} :
    b.limit? = some t ↔ b.high ≠ highestEdge ∧ b.high = t := by
  rw [Bucket.limit?]
  split
  · next h => simp [h]
  · next h => simp [h]

theorem Bucket.limit?_eq_none_iff {b : Bucket} : b.limit? = none ↔ b.high = highestEdge := by
  rw [Bucket.limit?, ite_eq_left_iff]
  simp

namespace Distribution

variable {d : Distribution} {leastSamples part whole : Nat}

theorem upperBound?_of_le (h : leastSamples ≤ d.total) :
    d.upperBound? leastSamples part whole =
      (bucketAbove? part whole d.total 0 d.buckets).bind Bucket.limit? :=
  if_neg (Nat.not_lt.mpr h)

theorem exists_of_upperBound?_eq_some {t : Int}
    (h : d.upperBound? leastSamples part whole = some t) :
    leastSamples ≤ d.total ∧ ∃ b, bucketAbove? part whole d.total 0 d.buckets = some b ∧
      b.high ≠ highestEdge ∧ b.high = t := by
  rw [upperBound?] at h
  split at h
  · cases h
  next hsamples =>
  obtain ⟨b, hb, hlimit⟩ := Option.bind_eq_some_iff.mp h
  exact ⟨Nat.not_lt.mp hsamples, b, hb, Bucket.limit?_eq_some_iff.mp hlimit⟩

/-- A bound of 99.9% comes with one of 99%, which is not greater. -/
theorem exists_p99?_of_p999?_eq_some (hasc : d.buckets.Pairwise (·.high < ·.high))
    (hword : ∀ b ∈ d.buckets, b.high ≤ highestEdge) {t : Int} (h : d.p999? = some t) :
    ∃ u, d.p99? = some u ∧ u ≤ t := by
  obtain ⟨hsamples, b, hb, hopen, rfl⟩ := exists_of_upperBound?_eq_some h
  have hparts : 99 * 1000 ≤ 999 * 100 := by decide
  obtain ⟨a, ha, hle⟩ := bucketAbove?_le_of_part_le hparts (by decide) hasc hb
  have hhigh := hword b (mem_of_bucketAbove? hb)
  have hlimit : a.limit? = some a.high := Bucket.limit?_eq_some_iff.mpr ⟨by omega, rfl⟩
  refine ⟨a.high, ?_, hle⟩
  rw [p99?, upperBound?_of_le (by omega), ha]
  exact hlimit

/-- With enough samples a bound is missing exactly if its percentile bucket has no upper limit. -/
theorem upperBound?_eq_none_iff (h : leastSamples ≤ d.total) {b : Bucket}
    (hb : bucketAbove? part whole d.total 0 d.buckets = some b) :
    d.upperBound? leastSamples part whole = none ↔ b.high = highestEdge := by
  rw [upperBound?_of_le h, hb]
  exact Bucket.limit?_eq_none_iff

/-- With any value at all there is exactly one percentile bucket, and the search ends at it. -/
theorem exists_percentileBucket (d : Distribution) (part whole : Nat) (hpart : part < whole)
    (htotal : 0 < d.total) :
    ∃ b, bucketAbove? part whole d.total 0 d.buckets = some b ∧
      ∀ c, d.IsPercentileBucket part whole c ↔ c = b := by
  obtain ⟨b, hb⟩ := exists_bucketAbove? d hpart htotal
  refine ⟨b, hb, ?_⟩
  intro c
  rw [← bucketAbove?_eq_some_iff_isPercentileBucket, hb, Option.some_inj]
  exact eq_comm

end Distribution

namespace Histogram

open WindowedStats.Distribution (exists_percentileBucket upperBound?_eq_none_iff
  exists_p99?_of_p999?_eq_some)

/-- Where the bound of 99.9% is defined, so is the bound of 99%, and it is not greater.  From a
thousand accepted values on each of the two percentiles has one bucket, and then the bound of 99.9%
alone is undefined exactly if its bucket is the one without upper limit and that of 99% is not. -/
theorem p99_le_p999 {marks : List Int} {figureLabel bucketLabel : String} {h : Histogram}
    (hh : ofMarks marks figureLabel bucketLabel = .ok h) (hword : ∀ t ∈ marks, t ≤ highestEdge)
    (vs : List Int) :
    let s := (vs.foldl push h).summary
    (∀ b, s.distribution.p999? = some b → ∃ a, s.distribution.p99? = some a ∧ a ≤ b) ∧
    (1000 ≤ s.accepted → ∃ a b : Bucket,
      (∀ c, s.distribution.IsPercentileBucket 99 100 c ↔ c = a) ∧
      (∀ c, s.distribution.IsPercentileBucket 999 1000 c ↔ c = b) ∧
      (s.distribution.p999? = none ∧ s.distribution.p99? ≠ none ↔
        b.high = highestEdge ∧ a.high ≠ highestEdge)) := by
  obtain ⟨t, rfl, hempty⟩ := holds_ofMarks hh
  have hvs : (vs.foldl push h).Holds t vs := hempty.pushes vs
  intro s
  have htotal : s.distribution.total = s.accepted := hvs.total_eq
  constructor
  · intro b hb
    have hbuckets : s.distribution.buckets = bucketsOf t.marks (vs.filter t.contains) :=
      congrArg Distribution.buckets hvs.distribution_eq
    refine exists_p99?_of_p999?_eq_some ?_ ?_ hb
    · rw [hbuckets]
      exact pairwise_high_bucketsOf t.ascending _
    · rw [hbuckets]
      intro c hc
      exact hword c.high (high_mem_of_mem_bucketsOf hc)
  · intro hsamples
    obtain ⟨a, ha, honly⟩ := exists_percentileBucket s.distribution 99 100 (by omega) (by omega)
    obtain ⟨b, hb, honly'⟩ := exists_percentileBucket s.distribution 999 1000 (by omega) (by omega)
    refine ⟨a, b, honly, honly', and_congr ?_ (not_congr ?_)⟩
    · exact upperBound?_eq_none_iff (by omega) hb
    · exact upperBound?_eq_none_iff (by omega) ha

/-- A thousand values, of which five are greater than the others. -/
def fewOutliers : List Int := List.replicate 995 1 ++ List.replicate 5 50

/-- More than 99% of the values lie below the bucket without upper limit, and not more than
99.9%. -/
theorem p99_le_p999_open_end :
    ∃ h, ofMarks [0, 10, highestEdge] "" "" = .ok h ∧
      (∀ t ∈ [0, 10, highestEdge], t ≤ highestEdge) ∧
      let s := (fewOutliers.foldl push h).summary
      1000 ≤ s.accepted ∧ s.distribution = ⟨[⟨0, 10, 995⟩, ⟨10, highestEdge, 5⟩]⟩ ∧
        s.distribution.p999? = none ∧ s.distribution.p99? ≠ none := by
  obtain ⟨h, hh⟩ : ∃ h, ofMarks [0, 10, highestEdge] "" "" = .ok h := ⟨_, rfl⟩
  have hword : ∀ t ∈ [0, 10, highestEdge], t ≤ highestEdge := by decide
  obtain ⟨-, hmissing⟩ := p99_le_p999 hh hword fewOutliers
  refine ⟨h, hh, hword, ?_⟩
  intro s
  obtain ⟨t, ht, hempty⟩ := holds_ofMarks hh
  have hsummary : s = Summary.ofValues t.marks fewOutliers := (hempty.pushes fewOutliers).summary_eq
  have hlow : covers [0, 10, highestEdge] 1 = true := by decide
  have hhigh : covers [0, 10, highestEdge] 50 = true := by decide
  have hkept : fewOutliers.filter (covers [0, 10, highestEdge]) = fewOutliers := by
    rw [fewOutliers, List.filter_append, List.filter_replicate_of_pos hlow,
      List.filter_replicate_of_pos hhigh]
  have hcount : ∀ p, fewOutliers.countP p =
      (if p 1 = true then 995 else 0) + if p 50 = true then 5 else 0 := by
    intro p
    rw [fewOutliers, List.countP_append, List.countP_replicate, List.countP_replicate]
  have hsamples : s.accepted = 1000 := by
    simp only [hsummary, Summary.ofValues, ht, hkept]
    rw [← List.countP_true, hcount]
    rfl
  have hbuckets : s.distribution = ⟨[⟨0, 10, 995⟩, ⟨10, highestEdge, 5⟩]⟩ := by
    simp only [hsummary, Summary.ofValues, ht, hkept, bucketsOf, hcount]
    rfl
  obtain ⟨a, b, ha, hb, hiff⟩ := hmissing hsamples.ge
  have h99 : ⟨0, 10, 995⟩ = a := by
    refine (ha _).mp ?_
    rw [hbuckets]
    exact ⟨[], _, rfl, by decide, by decide⟩
  have h999 : ⟨10, highestEdge, 5⟩ = b := by
    refine (hb _).mp ?_
    rw [hbuckets]
    exact ⟨[_], [], rfl, by decide, by decide⟩
  refine ⟨hsamples.ge, hbuckets, hiff.mpr ?_⟩
  rw [← h99, ← h999]
  decide

end Histogram

end WindowedStats
