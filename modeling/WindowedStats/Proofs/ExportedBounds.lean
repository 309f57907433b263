import WindowedStats.Proofs.PercentileOrder

/-!
# Exported percentile bounds

A bound that is undefined is exported as a fixed number, `undefinedBound`.  Nothing keeps this
number from being a threshold, since thresholds may be negative, and so from being a bound.

`exported_bound` tells when the fixed number is exported: if there are too few samples, if the
percentile bucket has no upper limit, and if its upper edge is that number.  The last case comes up
for some values as soon as the number is among the marks other than the first, because each of these
is the bound of some values (`exists_bound?_eq`).  Then the export does not tell whether there is a
bound.
-/

namespace WindowedStats

/-! ## Looking up a member -/

namespace Json

theorem get?_obj_cons (key k : String) (v : Json) (ms : Members) :
    (obj ((k, v) :: ms)).get? key = if k = key then some v else (obj ms).get? key := by
  by_cases hk : k = key
  · simp [get?, hk]
  · simp [get?, hk]

theorem get?_obj_insert (key k : String) (v : Json) (ms : Members) :
    (obj (ms.insert k v)).get? key = if k = key then some v else (obj ms).get? key := by
  induction ms with
  | nil => exact get?_obj_cons key k v []
  | cons m rest ih =>
      obtain ⟨k', v'⟩ := m
      rw [Members.insert]
      by_cases hkk : k' = k
      · rw [if_pos hkk, hkk, get?_obj_cons, get?_obj_cons]
        split <;> rfl
      · rw [if_neg hkk, get?_obj_cons, get?_obj_cons, ih]
        by_cases hk' : k' = key
        · rw [if_pos hk', if_pos hk', if_neg fun hk => hkk (hk'.trans hk.symm)]
        · rw [if_neg hk', if_neg hk']

/-- The member that was added last is the one that a lookup gives. -/
theorem get?_obj_ofList_append (key k : String) (v : Json) (ms : Members) :
    (obj (Members.ofList (ms ++ [(k, v)]))).get? key =
      if k = key then some v else (obj (Members.ofList ms)).get? key := by
  have hlast : Members.ofList (ms ++ [(k, v)]) = (Members.ofList ms).insert k v := by
    rw [Members.ofList, List.foldl_append]
    rfl
  rw [hlast, get?_obj_insert]

end Json

/-! ## The two percentiles -/

/-- A percentile of which a bound is exported. -/
inductive Percentile where
  | p99
  | p999

namespace Percentile

/-- The key of the exported bound. -/
def key : Percentile → String
  | p99 => "p99_upper_bound"
  | p999 => "p999_upper_bound"

/-- The number of samples that a bound takes. -/
def leastSamples : Percentile → Nat
  | p99 => 100
  | p999 => 1000

/-- A bound has more than `part` of the `whole` of all values below it. -/
def part : Percentile → Nat
  | p99 => 99
  | p999 => 999

def whole : Percentile → Nat
  | p99 => 100
  | p999 => 1000

/-- The bound that a distribution gives. -/
def bound? (p : Percentile) (d : Distribution) : Option Int :=
  match p with
  | p99 => d.p99?
  | p999 => d.p999?

variable {p : Percentile}

theorem bound?_eq (p : Percentile) (d : Distribution) :
    p.bound? d = d.upperBound? p.leastSamples p.part p.whole := by
  cases p <;> rfl

theorem leastSamples_pos (p : Percentile) : 0 < p.leastSamples := by
  cases p <;> decide

theorem part_lt_whole (p : Percentile) : p.part < p.whole := by
  cases p <;> decide

theorem get?_toJson (p : Percentile) (s : Summary) (layout : Layout)
    (figureLabel bucketLabel : String) :
    (s.toJson layout figureLabel bucketLabel).get? p.key =
      some (.int ((p.bound? s.distribution).getD undefinedBound)) := by
  -- The two bounds are the last members, whatever the labels make of the other keys.
  have hlast := Json.get?_obj_ofList_append p.key p999.key
    (.int (s.distribution.p999?.getD undefinedBound))
  have hsecond := Json.get?_obj_ofList_append p.key p99.key
    (.int (s.distribution.p99?.getD undefinedBound))
  have hjson : ∃ ms : Json.Members, s.toJson layout figureLabel bucketLabel =
      .obj (Json.Members.ofList (ms ++ [(p99.key, .int (s.distribution.p99?.getD undefinedBound))] ++
        [(p999.key, .int (s.distribution.p999?.getD undefinedBound))])) := ⟨[_, _, _, _, _, _, _], rfl⟩
  obtain ⟨ms, hms⟩ := hjson
  rw [hms, hlast, hsecond]
  cases p with
  | p99 => rw [if_neg (by decide), if_pos rfl]; rfl
  | p999 => rw [if_pos rfl]; rfl

/-! ## When a bound is undefined -/

/-- A bound is the upper edge of the percentile bucket, given enough samples. -/
theorem bound?_eq_some_iff {d : Distribution} {e : Int} :
    p.bound? d = some e ↔ p.leastSamples ≤ d.total ∧
      ∃ b, d.IsPercentileBucket p.part p.whole b ∧ b.high ≠ highestEdge ∧ b.high = e := by
  simp only [← Distribution.bucketAbove?_eq_some_iff_isPercentileBucket]
  rw [bound?_eq]
  constructor
  · exact Distribution.exists_of_upperBound?_eq_some
  · rintro ⟨hsamples, b, hb, hedge⟩
    rw [Distribution.upperBound?_of_le hsamples, hb]
    exact Bucket.limit?_eq_some_iff.mpr hedge

theorem bound?_eq_none_iff {d : Distribution} :
    p.bound? d = none ↔ d.total < p.leastSamples ∨
      ∃ b, d.IsPercentileBucket p.part p.whole b ∧ b.high = highestEdge := by
  simp only [← Distribution.bucketAbove?_eq_some_iff_isPercentileBucket]
  rw [bound?_eq]
  by_cases hsamples : d.total < p.leastSamples
  · simp [Distribution.upperBound?, hsamples]
  · have hle : p.leastSamples ≤ d.total := Nat.not_lt.mp hsamples
    obtain ⟨b, hb⟩ := Distribution.exists_bucketAbove? d p.part_lt_whole
      (Nat.lt_of_lt_of_le p.leastSamples_pos hle)
    rw [Distribution.upperBound?_eq_none_iff hle hb]
    simp [hsamples, hb]

/-- The fixed number is exported if there is no bound, or if it is the bound. -/
theorem getD_eq_undefinedBound_iff {d : Distribution} :
    (p.bound? d).getD undefinedBound = undefinedBound ↔ d.total < p.leastSamples ∨
      ∃ b, d.IsPercentileBucket p.part p.whole b ∧
        (b.high = highestEdge ∨ b.high = undefinedBound) := by
  cases hbound : p.bound? d with
  | none =>
      have hnone := bound?_eq_none_iff.mp hbound
      refine iff_of_true rfl (hnone.imp_right ?_)
      exact fun ⟨b, hb, hopen⟩ => ⟨b, hb, .inl hopen⟩
  | some e =>
      obtain ⟨hsamples, b, hb, hclosed, rfl⟩ := bound?_eq_some_iff.mp hbound
      have honly : ∀ c, d.IsPercentileBucket p.part p.whole c → c = b := by
        intro c hc
        rw [← Distribution.bucketAbove?_eq_some_iff_isPercentileBucket] at hb hc
        exact Option.some.inj (hc.symm.trans hb)
      constructor
      · exact fun he => .inr ⟨b, hb, .inr he⟩
      · rintro (hfew | ⟨c, hc, hedge⟩)
        · exact absurd hfew (Nat.not_lt.mpr hsamples)
        · rw [honly c hc] at hedge
          exact hedge.resolve_left hclosed

end Percentile

/-! ## Every mark but the first can be a bound -/

theorem TightBound.eq {part whole : Nat} {marks vs : List Int} {b c : Int}
    (hb : TightBound part whole marks vs b) (hc : TightBound part whole marks vs c) : b = c := by
  rcases Int.lt_trichotomy b c with hlt | heq | hgt
  · exact absurd hb.bounds (hc.tight b hb.mem hlt)
  · exact heq
  · exact absurd hc.bounds (hb.tight c hc.mem hgt)

/-- If all values lie at a mark, the next mark is their tight bound. -/
theorem tightBound_replicate {leastSamples part whole : Nat} (hleast : 0 < leastSamples)
    (hpart : part < whole) {before after : List Int} {a b : Int}
    (hasc : (before ++ a :: b :: after).Pairwise (· < ·)) :
    TightBound part whole (before ++ a :: b :: after) (List.replicate leastSamples a) b := by
  obtain ⟨-, hrest, hbefore⟩ := List.pairwise_append.mp hasc
  obtain ⟨ha, hb⟩ := List.pairwise_cons.mp hrest
  have hmem : b ∈ before ++ a :: b :: after := by simp
  refine ⟨hmem, boundsPart_of_exceedsBelow ?_, ?_⟩
  · have hall : (List.replicate leastSamples a).countP (· < b) = leastSamples := by
      rw [List.countP_replicate, if_pos (decide_eq_true (ha b List.mem_cons_self))]
    rw [exceedsBelow, hall, List.length_replicate]
    exact decide_eq_true (Nat.mul_lt_mul_of_pos_left hpart hleast)
  · intro t ht htb hbounds
    -- A smaller mark is not the last one and has none of the values below it.
    have hlast : (before ++ a :: b :: after).getLast? ≠ some t := fun hlast =>
      Int.not_le.mpr htb (le_last_of_mem hasc hlast hmem)
    have hta : t ≤ a := by
      rcases List.mem_append.mp ht with hfront | hback
      · exact Int.le_of_lt (hbefore t hfront a List.mem_cons_self)
      · rcases List.mem_cons.mp hback with rfl | hback
        · exact Int.le_refl _
        · rcases List.mem_cons.mp hback with rfl | hback
          · exact absurd htb (Int.lt_irrefl _)
          · exact absurd htb (Int.lt_asymm ((List.pairwise_cons.mp hb).1 t hback))
    have hnone : exceedsBelow part whole (List.replicate leastSamples a) t = false :=
      exceedsBelow_of_forall_le fun v hv => (List.eq_of_mem_replicate hv).symm ▸ hta
    exact absurd (exceedsBelow_of_boundsPart hlast hbounds) (by simp [hnone])

theorem exists_percentileMark? (part whole : Nat) {marks : List Int} (hmarks : marks ≠ [])
    (vs : List Int) : ∃ m, percentileMark? part whole marks vs = some m := by
  rw [← Option.isSome_iff_exists, percentileMark?, Option.isSome_or,
    List.getLast?_eq_some_getLast hmarks, Option.isSome_some, Bool.or_true]

theorem Thresholds.contains_of_mem {t : Thresholds} {v : Int} (hv : v ∈ t.marks) :
    t.contains v = true := by
  refine contains_iff.mpr ⟨?_, le_last_of_mem t.ascending (List.getLast?_eq_some_getLast _) hv⟩
  have hasc := t.ascending
  rw [← List.cons_head_tail t.marks_ne_nil] at hasc hv
  rcases List.mem_cons.mp hv with rfl | hlater
  · exact Int.le_refl _
  · exact Int.le_of_lt ((List.pairwise_cons.mp hasc).1 v hlater)

namespace Histogram

variable {h : Histogram} {t : Thresholds}

theorem Holds.bound?_eq {vs : List Int} (hh : h.Holds t vs) (p : Percentile) :
    p.bound? h.summary.distribution =
      percentileBound? p.leastSamples p.part p.whole t.marks (vs.filter t.contains) := by
  rw [Percentile.bound?_eq]
  exact hh.upperBound?_eq p.leastSamples_pos p.part_lt_whole

theorem bound?_of_ofMarks {marks : List Int} {figureLabel bucketLabel : String}
    (hh : ofMarks marks figureLabel bucketLabel = .ok h) (p : Percentile) (vs : List Int) :
    p.bound? (vs.foldl push h).summary.distribution =
      percentileBound? p.leastSamples p.part p.whole marks (vs.filter (covers marks)) := by
  obtain ⟨t, rfl, hempty⟩ := holds_ofMarks hh
  rw [funext (covers_marks t)]
  exact (hempty.pushes vs).bound?_eq p

/-- A mark after the first, unless it is the highest edge, is the bound of some values. -/
theorem exists_bound?_eq (p : Percentile) (hh : h.Holds t []) {b : Int} (hb : b ∈ t.marks.tail)
    (hclosed : b ≠ highestEdge) : ∃ vs : List Int,
      p.bound? (vs.foldl push h).summary.distribution = some b := by
  obtain ⟨first, rest, hmarks⟩ := List.exists_cons_of_ne_nil t.marks_ne_nil
  rw [hmarks, List.tail_cons] at hb
  obtain ⟨before, a, after, hsplit⟩ : ∃ before a after, t.marks = before ++ a :: b :: after := by
    obtain ⟨front, after, rfl⟩ := List.append_of_mem hb
    rcases List.eq_nil_or_concat front with rfl | ⟨front, a, rfl⟩
    · exact ⟨[], first, after, hmarks⟩
    · exact ⟨first :: front, a, after, by simp [hmarks]⟩
  have ha : t.contains a = true := Thresholds.contains_of_mem (by simp [hsplit])
  have hkept : (List.replicate p.leastSamples a).filter t.contains =
      List.replicate p.leastSamples a := List.filter_replicate_of_pos ha
  have hne : List.replicate p.leastSamples a ≠ [] := by
    rw [Ne, List.replicate_eq_nil_iff]
    exact Nat.ne_of_gt p.leastSamples_pos
  obtain ⟨m, hm⟩ := exists_percentileMark? p.part p.whole t.marks_ne_nil
    (List.replicate p.leastSamples a)
  have htight : TightBound p.part p.whole t.marks (List.replicate p.leastSamples a) m := by
    refine tightBound_of_percentileMark? p.part_lt_whole t.ascending hne ?_ ?_ hm
    · intro v hv _ hfirst
      exact head?_le_of_contains (List.eq_of_mem_replicate hv ▸ ha) hfirst
    · intro v hv _ hlast
      exact le_getLast?_of_contains (List.eq_of_mem_replicate hv ▸ ha) hlast
  have hnext : TightBound p.part p.whole t.marks (List.replicate p.leastSamples a) b := by
    rw [hsplit]
    exact tightBound_replicate p.leastSamples_pos p.part_lt_whole (hsplit ▸ t.ascending)
  refine ⟨List.replicate p.leastSamples a, ?_⟩
  rw [(hh.pushes _).bound?_eq p, List.nil_append, hkept, percentileBound?, List.length_replicate,
    if_neg (Nat.lt_irrefl _), hm, htight.eq hnext]
  simp [Option.filter, hclosed]

/-- A bound is a mark after the first. -/
theorem Holds.mem_tail_of_bound? {vs : List Int} (hh : h.Holds t vs) {p : Percentile} {e : Int}
    (he : p.bound? h.summary.distribution = some e) : e ∈ t.marks.tail := by
  obtain ⟨-, b, ⟨before, after, hbuckets, -, -⟩, -, rfl⟩ := Percentile.bound?_eq_some_iff.mp he
  have hdist : h.summary.distribution.buckets = bucketsOf t.marks (vs.filter t.contains) :=
    congrArg Distribution.buckets hh.distribution_eq
  have hmem : b ∈ bucketsOf t.marks (vs.filter t.contains) := by
    rw [← hdist, hbuckets]
    simp
  exact map_high_bucketsOf t.marks _ ▸ List.mem_map_of_mem hmem

theorem get?_toJson (p : Percentile) (h : Histogram) (layout : Layout) :
    (h.toJson layout).get? p.key =
      some (.int ((p.bound? h.summary.distribution).getD undefinedBound)) :=
  p.get?_toJson h.summary layout h.figureLabel h.bucketLabel

/-- After any values, what is exported for a bound is the bound, or the fixed number if there is
none.  There is no bound exactly with too few accepted values, and if the percentile bucket has no
upper limit; the fixed number is exported in these cases, and also if the percentile bucket ends at
that number.  So the export tells whether there is a bound, for all values, exactly if the fixed
number is not among the marks after the first. -/
theorem exported_bound {marks : List Int} {figureLabel bucketLabel : String} {h : Histogram}
    (hh : ofMarks marks figureLabel bucketLabel = .ok h) (p : Percentile) (layout : Layout) :
    (∀ vs : List Int,
      let h' := vs.foldl push h
      let s := h'.summary
      ∃ x : Int, (h'.toJson layout).get? p.key = some (.int x) ∧
        (∀ e, p.bound? s.distribution = some e → x = e) ∧
        (p.bound? s.distribution = none ↔ s.accepted < p.leastSamples ∨
          ∃ b, s.distribution.IsPercentileBucket p.part p.whole b ∧ b.high = highestEdge) ∧
        (x = undefinedBound ↔ s.accepted < p.leastSamples ∨
          ∃ b, s.distribution.IsPercentileBucket p.part p.whole b ∧
            (b.high = highestEdge ∨ b.high = undefinedBound))) ∧
    ((∀ vs : List Int, ((vs.foldl push h).toJson layout).get? p.key = some (.int undefinedBound) ↔
        p.bound? (vs.foldl push h).summary.distribution = none) ↔
      undefinedBound ∉ marks.tail) := by
  obtain ⟨t, rfl, hempty⟩ := holds_ofMarks hh
  constructor
  · intro vs h' s
    have htotal : s.distribution.total = s.accepted := (hempty.pushes vs).total_eq
    refine ⟨_, get?_toJson p h' layout, ?_, ?_, ?_⟩
    · intro e he
      rw [he, Option.getD_some]
    · rw [Percentile.bound?_eq_none_iff, htotal]
    · rw [Percentile.getD_eq_undefinedBound_iff, htotal]
  · simp only [get?_toJson, Option.some_inj, Json.int.injEq]
    constructor
    · intro htells hmem
      obtain ⟨vs, hvs⟩ := exists_bound?_eq p hempty hmem (by decide)
      have hnone := (htells vs).mp (by rw [hvs, Option.getD_some])
      exact absurd (hvs.symm.trans hnone) (by simp)
    · intro hmem vs
      cases hbound : p.bound? (vs.foldl push h).summary.distribution with
      | none => exact iff_of_true rfl rfl
      | some e =>
          have he := (hempty.pushes vs).mem_tail_of_bound? hbound
          refine iff_of_false ?_ (by simp)
          rintro rfl
          exact hmem he

/-- Negative thresholds alone do no harm. -/
theorem exported_bound_negative :
    ∃ h, ofMarks [-7, -3, 0, highestEdge] "" "" = .ok h ∧
      (∀ vs : List Int,
        ((vs.foldl push h).toJson .separate).get? "p99_upper_bound" = some (.int undefinedBound) ↔
          (vs.foldl push h).summary.distribution.p99? = none) ∧
      (((List.replicate 100 (-7)).foldl push h).toJson .separate).get? "p99_upper_bound" =
        some (.int (-3)) := by
  obtain ⟨h, hh⟩ : ∃ h, ofMarks [-7, -3, 0, highestEdge] "" "" = .ok h := ⟨_, rfl⟩
  obtain ⟨hvalues, htells⟩ := exported_bound hh .p99 .separate
  refine ⟨h, hh, htells.mpr (by decide), ?_⟩
  obtain ⟨x, hx, hbound, -⟩ := hvalues (List.replicate 100 (-7))
  have hp99 : ((List.replicate 100 (-7)).foldl push h).summary.distribution.p99? = some (-3) :=
    (bound?_of_ofMarks hh .p99 _).trans (by decide +kernel)
  rw [hbound _ hp99] at hx
  exact hx

/-- All of a hundred values lie in the interval from -2 to -1. -/
theorem bound_exported_as_undefined :
    ¬ ∀ (marks : List Int) (h : Histogram), ofMarks marks "" "" = .ok h → ∀ vs : List Int,
        ((vs.foldl push h).toJson .separate).get? "p99_upper_bound" = some (.int undefinedBound) →
          (vs.foldl push h).summary.distribution.p99? = none := by
  intro htells
  obtain ⟨h, hh⟩ : ∃ h, ofMarks [-2, -1, 5] "" "" = .ok h := ⟨_, rfl⟩
  have hp99 : ((List.replicate 100 (-2)).foldl push h).summary.distribution.p99? = some (-1) :=
    (bound?_of_ofMarks hh .p99 _).trans (by decide +kernel)
  have hexported := get?_toJson .p99 ((List.replicate 100 (-2)).foldl push h) .separate
  rw [Percentile.bound?, hp99] at hexported
  exact absurd (hp99.symm.trans (htells _ h hh _ hexported)) (by simp)

end Histogram

end WindowedStats
