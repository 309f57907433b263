import WindowedStats.Proofs.HistogramValues

/-!
# Percentile bounds are tight

A percentile bound is found by adding up the counts of the buckets until they exceed a part of all
values.  In terms of the values themselves this is a search among the marks: `percentileMark?` is
the smallest inner mark below which more than that part of the values lie, and the last mark if
there is no such inner one.

The two agree because the counts up to a mark are the number of values below it
(`countP_lt_add_bucket`), except at the last mark, which belongs to the last bucket: there all
values have been counted, so the search never ends without a bucket once there is a value.

`percentile_bounds_tight` states this for both percentiles of a histogram, together with what the
bounds are good for: more than the given part of the values lie below the bound, and no smaller mark
is a bound.
-/

namespace WindowedStats

/-! ## Marks that bound a part of the values -/

/-- More than `part` of the `whole` of some values lie below a mark. -/
def exceedsBelow (part whole : Nat) (vs : List Int) (t : Int) : Bool :=
  vs.length * part < vs.countP (· < t) * whole

/-- The smallest inner mark below which more than `part` of the `whole` of some values lie, or the
last mark if there is none. -/
def percentileMark? (part whole : Nat) (marks vs : List Int) : Option Int :=
  (marks.tail.dropLast.filter (exceedsBelow part whole vs)).min?.or marks.getLast?

/-- The percentile mark of some values, unless there are too few of them or no value lies beyond
the mark. -/
def percentileBound? (leastSamples part whole : Nat) (marks vs : List Int) : Option Int :=
  if vs.length < leastSamples then none
  else (percentileMark? part whole marks vs).filter (· ≠ highestEdge)

/-- A mark bounds a part of the values: more than `part` of the `whole` lie below it, where the
values at the last mark count as below it. -/
def BoundsPart (part whole : Nat) (marks vs : List Int) (t : Int) : Prop :=
  vs.length * part < vs.countP (fun v => v < t || v = t && marks.getLast? = some t) * whole

/-- A mark is a tight bound: it bounds a part of the values, and no smaller mark does. -/
structure TightBound (part whole : Nat) (marks vs : List Int) (b : Int) : Prop where
  mem : b ∈ marks
  bounds : BoundsPart part whole marks vs b
  tight : ∀ t ∈ marks, t < b → ¬ BoundsPart part whole marks vs t

/-! ## Adding up the counts -/

/-- On ascending marks the smallest of some kind is the first one. -/
theorem min?_filter_of_ascending {l : List Int} (hl : l.Pairwise (· < ·)) (p : Int → Bool) :
    (l.filter p).min? = l.find? p := by
  have hmin : (l.filter p).Pairwise fun a b => min a b = a :=
    (hl.filter p).imp fun h => Int.min_eq_left (Int.le_of_lt h)
  rw [List.min?_eq_head? hmin, List.head?_filter]

/-- Two kinds of values of which none is of both kinds, counted together. -/
theorem countP_add_of_disjoint {p q r : Int → Bool} {vs : List Int}
    (h : ∀ v ∈ vs, (r v = (p v || q v)) ∧ ¬ (p v = true ∧ q v = true)) :
    vs.countP p + vs.countP q = vs.countP r := by
  induction vs with
  | nil => rfl
  | cons v rest ih =>
      obtain ⟨hr, hpq⟩ := h v List.mem_cons_self
      have ih := ih fun w hw => h w (List.mem_cons_of_mem v hw)
      rw [List.countP_cons, List.countP_cons, List.countP_cons, hr, ← ih]
      cases hp : p v <;> cases hq : q v
      · simp
      · simp; omega
      · simp; omega
      · exact absurd ⟨hp, hq⟩ hpq

/-- The values below the lower mark of a bucket, and those in the bucket, are the values below its
upper mark, unless that is the last mark. -/
theorem countP_lt_add_bucket {a b : Int} {rest : List Int}
    (hasc : (a :: b :: rest).Pairwise (· < ·)) (hrest : rest ≠ []) (vs : List Int) :
    vs.countP (· < a) + vs.countP (inInterval (a :: b :: rest) a b) = vs.countP (· < b) := by
  obtain ⟨ha, hrest'⟩ := List.pairwise_cons.mp hasc
  have hab : a < b := ha b List.mem_cons_self
  have hnotLast : (a :: b :: rest).getLast? ≠ some b := by
    intro hlast
    rw [List.getLast?_cons_cons, List.getLast?_cons_of_ne_nil hrest] at hlast
    exact Int.lt_irrefl b ((List.pairwise_cons.mp hrest').1 b (List.mem_of_getLast? hlast))
  refine countP_add_of_disjoint ?_
  intro v _
  simp only [inInterval, hnotLast, decide_false, Bool.and_false, Bool.or_false, Bool.and_eq_true,
    decide_eq_true_eq]
  refine ⟨?_, by omega⟩
  rw [Bool.eq_iff_iff]
  simp only [Bool.or_eq_true, Bool.and_eq_true, decide_eq_true_eq]
  omega

/-- With the last bucket all values have been counted. -/
theorem countP_lt_add_lastBucket {a b : Int} {vs : List Int} (hvs : ∀ v ∈ vs, v ≤ b) :
    vs.countP (· < a) + vs.countP (inInterval [a, b] a b) = vs.length := by
  rw [← List.countP_true]
  refine countP_add_of_disjoint ?_
  intro v hv
  have hvb := hvs v hv
  simp [inInterval]
  omega

/-- Adding up the counts ends at the first inner mark below which enough values lie, and at the last
mark if there is none. -/
theorem bucketAbove?_bucketsOf {part whole : Nat} (hpart : part < whole) {vs : List Int}
    (hvs : vs ≠ []) (a : Int) {marks : List Int} (hmarks : marks ≠ [])
    (hasc : (a :: marks).Pairwise (· < ·))
    (hlast : ∀ v ∈ vs, ∀ b, marks.getLast? = some b → v ≤ b) :
    (Distribution.bucketAbove? part whole vs.length (vs.countP (· < a))
      (bucketsOf (a :: marks) vs)).map Bucket.high =
      (marks.dropLast.find? (exceedsBelow part whole vs)).or marks.getLast? := by
  induction marks generalizing a with
  | nil => exact absurd rfl hmarks
  | cons b rest ih =>
      have hasc' := hasc.of_cons
      rw [bucketsOf_cons, Distribution.bucketAbove?]
      cases rest with
      | nil =>
          have hcount := countP_lt_add_lastBucket (a := a) fun v hv => hlast v hv b rfl
          have hexceeds : vs.length * part < vs.length * whole :=
            Nat.mul_lt_mul_of_pos_left hpart (List.length_pos_iff.mpr hvs)
          rw [hcount, if_pos hexceeds]
          rfl
      | cons c rest =>
          have hcount := countP_lt_add_bucket hasc (List.cons_ne_nil c rest) vs
          have hrest := ih b (List.cons_ne_nil c rest) hasc' fun v hv t ht =>
            hlast v hv t (List.getLast?_cons_cons.trans ht)
          rw [hcount, List.dropLast_cons_cons, List.getLast?_cons_cons]
          by_cases hb : vs.length * part < vs.countP (· < b) * whole
          · have hb' : exceedsBelow part whole vs b = true := decide_eq_true hb
            rw [if_pos hb, List.find?_cons_of_pos hb']
            rfl
          · have hb' : ¬ exceedsBelow part whole vs b = true := fun h => hb (of_decide_eq_true h)
            rw [if_neg hb, List.find?_cons_of_neg hb']
            exact hrest

/-! ## The search among the marks -/

theorem le_last_of_mem {marks : List Int} (hasc : marks.Pairwise (· < ·)) {last t : Int}
    (hlast : marks.getLast? = some last) (ht : t ∈ marks) : t ≤ last := by
  obtain ⟨before, rfl⟩ := List.getLast?_eq_some_iff.mp hlast
  rcases List.mem_append.mp ht with hbefore | hend
  · exact Int.le_of_lt ((List.pairwise_append.mp hasc).2.2 t hbefore last (by simp))
  · exact Int.le_of_eq (List.mem_singleton.mp hend)

section TightBound

variable {part whole : Nat} {marks vs : List Int} {t b : Int}

/-- A mark below which enough values lie bounds this part of them. -/
theorem boundsPart_of_exceedsBelow (h : exceedsBelow part whole vs t = true) :
    BoundsPart part whole marks vs t := by
  have hle : vs.countP (· < t) ≤ vs.countP fun v => v < t || v = t && marks.getLast? = some t :=
    List.countP_mono_left fun v _ hv => by simp [of_decide_eq_true hv]
  exact Nat.lt_of_lt_of_le (of_decide_eq_true h) (Nat.mul_le_mul_right whole hle)

/-- The last mark bounds all values up to it. -/
theorem boundsPart_last (hpart : part < whole) (hvs : vs ≠ []) (hlast : marks.getLast? = some t)
    (hle : ∀ v ∈ vs, v ≤ t) : BoundsPart part whole marks vs t := by
  have hall : vs.countP (fun v => v < t || v = t && marks.getLast? = some t) = vs.length := by
    refine List.countP_eq_length.mpr ?_
    intro v hv
    simpa [hlast] using Int.lt_or_eq_of_le (hle v hv)
  rw [BoundsPart, hall]
  exact Nat.mul_lt_mul_of_pos_left hpart (List.length_pos_iff.mpr hvs)

/-- Before the last mark only the values below a mark count. -/
theorem exceedsBelow_of_boundsPart (hlast : marks.getLast? ≠ some t)
    (h : BoundsPart part whole marks vs t) : exceedsBelow part whole vs t = true := by
  simp only [BoundsPart, hlast, decide_false, Bool.and_false, Bool.or_false] at h
  exact decide_eq_true h

/-- A mark below which no value lies bounds nothing. -/
theorem exceedsBelow_of_forall_le (hle : ∀ v ∈ vs, t ≤ v) :
    exceedsBelow part whole vs t = false := by
  have hnone : vs.countP (· < t) = 0 := List.countP_eq_zero.mpr fun v hv => by
    simpa using hle v hv
  simp [exceedsBelow, hnone]

/-- Of the marks that bound a part of the values the percentile mark is the smallest: such a mark is
not the first one, since no value lies below that, so it is the last one or the search comes across
it. -/
theorem tightBound_of_percentileMark? (hpart : part < whole) (hasc : marks.Pairwise (· < ·))
    (hvs : vs ≠ []) (hfirst : ∀ v ∈ vs, ∀ t, marks.head? = some t → t ≤ v)
    (hend : ∀ v ∈ vs, ∀ t, marks.getLast? = some t → v ≤ t)
    (hb : percentileMark? part whole marks vs = some b) : TightBound part whole marks vs b := by
  have hinner : ∀ u ∈ marks.tail.dropLast, u ∈ marks := fun u hu =>
    List.mem_of_mem_tail (List.dropLast_subset _ hu)
  have hfound : ∀ u ∈ marks, BoundsPart part whole marks vs u →
      u ∈ marks.tail.dropLast.filter (exceedsBelow part whole vs) ∨ marks.getLast? = some u := by
    intro u hu hbounds
    by_cases hlast : marks.getLast? = some u
    · exact .inr hlast
    have hexceeds := exceedsBelow_of_boundsPart hlast hbounds
    cases marks with
    | nil => exact absurd hu List.not_mem_nil
    | cons first rest =>
        rcases List.mem_cons.mp hu with rfl | hrest
        · have hnone : exceedsBelow part whole vs u = false :=
            exceedsBelow_of_forall_le fun v hv => hfirst v hv u rfl
          exact absurd hexceeds (by simp [hnone])
        · have hne : rest ≠ [] := List.ne_nil_of_mem hrest
          rw [List.getLast?_cons_of_ne_nil hne] at hlast
          exact .inl (List.mem_filter.mpr
            ⟨List.mem_dropLast_of_mem_of_ne_getLast? hrest (Ne.symm hlast), hexceeds⟩)
  rcases Option.or_eq_some_iff.mp hb with hmin | ⟨hnone, hlast⟩
  · obtain ⟨hmem, hleast⟩ := List.min?_eq_some_iff.mp hmin
    obtain ⟨hmarks, hexceeds⟩ := List.mem_filter.mp hmem
    refine ⟨hinner b hmarks, boundsPart_of_exceedsBelow hexceeds, ?_⟩
    intro u hu hub hbounds
    rcases hfound u hu hbounds with hmem' | hlast
    · exact Int.not_le.mpr hub (hleast u hmem')
    · exact Int.not_le.mpr hub (le_last_of_mem hasc hlast (hinner b hmarks))
  · refine ⟨List.mem_of_getLast? hlast,
      boundsPart_last hpart hvs hlast fun v hv => hend v hv b hlast, ?_⟩
    intro u hu hub hbounds
    rcases hfound u hu hbounds with hmem' | hlast'
    · rw [List.min?_eq_none_iff] at hnone
      exact List.not_mem_nil (hnone ▸ hmem')
    · exact Int.ne_of_lt hub (Option.some.inj (hlast'.symm.trans hlast))

end TightBound

/-! ## The bounds of a histogram -/

namespace Histogram

variable {h : Histogram} {t : Thresholds} {vs : List Int}

theorem head?_le_of_contains {v first : Int} (hv : t.contains v = true)
    (hfirst : t.marks.head? = some first) : first ≤ v := by
  rw [List.head?_eq_some_head t.marks_ne_nil] at hfirst
  exact Option.some.inj hfirst ▸ (Thresholds.contains_iff.mp hv).1

theorem le_getLast?_of_contains {v last : Int} (hv : t.contains v = true)
    (hlast : t.marks.getLast? = some last) : v ≤ last := by
  rw [List.getLast?_eq_some_getLast t.marks_ne_nil] at hlast
  exact Option.some.inj hlast ▸ (Thresholds.contains_iff.mp hv).2

/-- A bound is undefined also if the bucket has no upper limit. -/
theorem bind_limit? (b : Option Bucket) :
    b.bind Bucket.limit? = (b.map Bucket.high).filter (· ≠ highestEdge) := by
  cases b with
  | none => rfl
  | some b =>
      by_cases hb : b.high = highestEdge
      · simp [Bucket.limit?, Option.filter, hb]
      · simp [Bucket.limit?, Option.filter, hb]

/-- The bound that the buckets give is the percentile bound of the accepted values. -/
theorem Holds.upperBound?_eq (hh : h.Holds t vs) {leastSamples part whole : Nat}
    (hleast : 0 < leastSamples) (hpart : part < whole) :
    h.tally.distribution.upperBound? leastSamples part whole =
      percentileBound? leastSamples part whole t.marks (vs.filter t.contains) := by
  rw [Distribution.upperBound?, percentileBound?, hh.total_eq, hh.accepted_eq]
  split
  · rfl
  next hsamples =>
  have hkept : vs.filter t.contains ≠ [] := by
    intro hnil
    rw [hnil] at hsamples
    exact hsamples hleast
  obtain ⟨first, rest, hmarks⟩ := List.exists_cons_of_ne_nil t.marks_ne_nil
  have hrest : rest ≠ [] := by
    rintro rfl
    have := t.two_le_length
    simp [hmarks] at this
  have hasc : (first :: rest).Pairwise (· < ·) := hmarks ▸ t.ascending
  have hfirst : t.marks.head? = some first := by rw [hmarks, List.head?_cons]
  have hbelow : (vs.filter t.contains).countP (· < first) = 0 :=
    List.countP_eq_zero.mpr fun v hv => by
      simpa using head?_le_of_contains (List.mem_filter.mp hv).2 hfirst
  have hlast : ∀ v ∈ vs.filter t.contains, ∀ b, rest.getLast? = some b → v ≤ b := fun v hv b hb =>
    le_getLast?_of_contains (List.mem_filter.mp hv).2
      (by rw [hmarks, List.getLast?_cons_of_ne_nil hrest, hb])
  have hsearch := bucketAbove?_bucketsOf hpart hkept first hrest hasc hlast
  rw [hbelow] at hsearch
  have hinner : rest.dropLast.Pairwise (· < ·) := hasc.of_cons.sublist (List.dropLast_sublist rest)
  rw [bind_limit?, hh.distribution_eq, hmarks, hsearch, percentileMark?, List.tail_cons,
    min?_filter_of_ascending hinner, List.getLast?_cons_of_ne_nil hrest]

theorem tightBound_of_percentileBound? {leastSamples part whole : Nat}
    (hleast : 0 < leastSamples) (hpart : part < whole) {b : Int}
    (hb : percentileBound? leastSamples part whole t.marks (vs.filter t.contains) = some b) :
    TightBound part whole t.marks (vs.filter t.contains) b := by
  rw [percentileBound?] at hb
  split at hb
  · cases hb
  next hsamples =>
  refine tightBound_of_percentileMark? hpart t.ascending ?_
    (fun v hv _ => head?_le_of_contains (List.mem_filter.mp hv).2)
    (fun v hv _ => le_getLast?_of_contains (List.mem_filter.mp hv).2)
    (Option.filter_eq_some_iff.mp hb).1
  intro hnil
  rw [hnil] at hsamples
  exact hsamples hleast

/-- After any values, the bound of 99% is the smallest inner mark below which more than 99% of the
accepted values lie, or the last mark if there is none; it is undefined with fewer than a hundred
accepted values, and if no value lies beyond the mark.  A defined bound is tight.  The same holds of
99.9% and a thousand values. -/
theorem percentile_bounds_tight {marks : List Int} {figureLabel bucketLabel : String}
    {h : Histogram} (hh : ofMarks marks figureLabel bucketLabel = .ok h) (vs : List Int) :
    ((vs.foldl push h).summary.distribution.p99? =
        percentileBound? 100 99 100 marks (vs.filter (covers marks)) ∧
      ∀ b, (vs.foldl push h).summary.distribution.p99? = some b →
        TightBound 99 100 marks (vs.filter (covers marks)) b) ∧
    ((vs.foldl push h).summary.distribution.p999? =
        percentileBound? 1000 999 1000 marks (vs.filter (covers marks)) ∧
      ∀ b, (vs.foldl push h).summary.distribution.p999? = some b →
        TightBound 999 1000 marks (vs.filter (covers marks)) b) := by
  obtain ⟨t, rfl, hempty⟩ := holds_ofMarks hh
  have hvs : (vs.foldl push h).Holds t vs := hempty.pushes vs
  have hcovers : covers t.marks = t.contains := funext (covers_marks t)
  rw [hcovers]
  have hp99 : (vs.foldl push h).summary.distribution.p99? =
      percentileBound? 100 99 100 t.marks (vs.filter t.contains) :=
    hvs.upperBound?_eq (by omega) (by omega)
  have hp999 : (vs.foldl push h).summary.distribution.p999? =
      percentileBound? 1000 999 1000 t.marks (vs.filter t.contains) :=
    hvs.upperBound?_eq (by omega) (by omega)
  refine ⟨⟨hp99, ?_⟩, hp999, ?_⟩
  · intro b hb
    exact tightBound_of_percentileBound? (by omega) (by omega) (hp99.symm.trans hb)
  · intro b hb
    exact tightBound_of_percentileBound? (by omega) (by omega) (hp999.symm.trans hb)

/-- With 99 of a hundred values below a mark, exactly 99% lie below it, so the next mark is the
bound. -/
theorem percentile_bounds_tight_tie :
    ∃ h, ofMarks [0, 2, 5, highestEdge] "" "" = .ok h ∧
      ((List.replicate 99 1 ++ [4]).foldl push h).summary.distribution.p99? = some 5 ∧
      ((List.replicate 99 1 ++ [4]).foldl push h).summary.distribution.p999? = none := by
  obtain ⟨h, hh⟩ := (exists_ofMarks_iff [0, 2, 5, highestEdge] "" "").mpr ⟨by decide, by decide⟩
  obtain ⟨⟨hp99, -⟩, hp999, -⟩ := percentile_bounds_tight hh (List.replicate 99 1 ++ [4])
  exact ⟨h, hh, hp99.trans (by decide +kernel), hp999.trans (by decide +kernel)⟩

end Histogram

end WindowedStats
