import WindowedStats.Proofs.HistogramValues
import WindowedStats.Proofs.SizeMarks

/-!
# Histograms of queue sizes

The marks of a queue size begin at zero and end at the open end, whatever the capacity and the cap,
so no size lies outside them.  What they may fail to do is ascend: the open end is appended without
a look at the last mark before it, and sizes beyond the open end are counted as the open end
itself.  If the greatest size on offer (`topMark`) is that large, the open end stands there twice,
and the marks make no histogram.

`sizeThresholds_ascend_or_end_twice` says that there is nothing in between: either the marks ascend
and make a histogram, or they ascend but for the open end at the end, which is refused as unsorted.
-/

namespace WindowedStats

/-! ## The first and the last mark -/

theorem appendAbove_cons (mark : Int) (rest : List Int) (n : Nat) :
    ∃ rest', appendAbove (mark :: rest) n = mark :: rest' := by
  rw [appendAbove]
  split
  · exact ⟨rest ++ [sizeMark n], rfl⟩
  · exact ⟨rest, rfl⟩

theorem head?_sizeThresholds (capacity cap : UInt64) :
    (queueSizeThresholds capacity cap).head? = some 0 := by
  simp only [queueSizeThresholds]
  split
  · obtain ⟨rest, hrest⟩ := appendAbove_cons 0 _ (capacity.toNat / 2)
    rw [hrest]
    obtain ⟨rest', hrest'⟩ := appendAbove_cons 0 rest (threeQuarters capacity.toNat)
    rw [hrest']
    rfl
  · obtain ⟨rest, hrest⟩ := appendAbove_cons 0 _ (min capacity.toNat cap.toNat)
    rw [hrest]
    rfl

theorem getLast?_sizeThresholds (capacity cap : UInt64) :
    (queueSizeThresholds capacity cap).getLast? = some highestEdge := by
  obtain ⟨marks, last, hmarks, -, -⟩ := sizeThresholds_split capacity cap
  rw [hmarks, List.getLast?_concat]

theorem sizeMark_le (n : Nat) : sizeMark n ≤ highestEdge := Int.min_le_right _ _

/-- No size lies outside the marks. -/
theorem covers_sizeThresholds (capacity cap : UInt64) (n : Nat) :
    covers (queueSizeThresholds capacity cap) (sizeMark n) = true := by
  have hlow : (0 : Int) ≤ sizeMark n := by
    rw [sizeMark]
    have : (0 : Int) ≤ highestEdge := by decide
    omega
  rw [covers, head?_sizeThresholds, getLast?_sizeThresholds]
  simp [hlow, sizeMark_le n]

/-! ## Marks beyond the open end -/

theorem le_of_mem_appendAbove {marks : List Int} {n : Nat} (h : ∀ v ∈ marks, v ≤ highestEdge) :
    ∀ v ∈ appendAbove marks n, v ≤ highestEdge := by
  rw [appendAbove]
  split
  · intro v hv
    rcases List.mem_append.mp hv with hold | hnew
    · exact h v hold
    · rw [List.mem_singleton.mp hnew]
      exact sizeMark_le n
  · exact h

theorem le_of_mem_powers (powers : List Nat) :
    ∀ v ∈ (0 : Int) :: powers.map sizeMark, v ≤ highestEdge := by
  intro v hv
  rcases List.mem_cons.mp hv with rfl | hv
  · decide
  · obtain ⟨n, -, rfl⟩ := List.mem_map.mp hv
    exact sizeMark_le n

theorem le_of_mem_sizeThresholds {capacity cap : UInt64} {v : Int}
    (hv : v ∈ queueSizeThresholds capacity cap) : v ≤ highestEdge := by
  simp only [queueSizeThresholds] at hv
  rcases List.mem_append.mp hv with hmark | hend
  · split at hmark
    · exact le_of_mem_appendAbove (le_of_mem_appendAbove (le_of_mem_powers _)) v hmark
    · exact le_of_mem_appendAbove (le_of_mem_powers _) v hmark
  · exact (List.mem_singleton.mp hend).le

/-- If the greatest size on offer is beyond the open end, the open end stands at the end twice. -/
theorem sizeThresholds_end_twice {capacity cap : UInt64}
    (h : highestEdge ≤ (topMark capacity.toNat cap.toNat : Int)) :
    ∃ front, queueSizeThresholds capacity cap = front ++ [highestEdge, highestEdge] ∧
      (front ++ [highestEdge]).Pairwise (· < ·) := by
  obtain ⟨marks, last, hmarks, ⟨hasc, hlast⟩, htop⟩ := sizeThresholds_split capacity cap
  obtain ⟨front, rfl⟩ := List.getLast?_eq_some_iff.mp hlast
  have hle : last ≤ highestEdge :=
    le_of_mem_sizeThresholds (by rw [hmarks]; simp)
  have hge : ¬ last < highestEdge := fun hlt => absurd (htop.mp hlt) (Int.not_lt.mpr h)
  obtain rfl : last = highestEdge := Int.le_antisymm hle (Int.not_lt.mp hge)
  exact ⟨front, by rw [hmarks, List.append_assoc]; rfl, hasc⟩

/-! ## Marks that make a histogram -/

theorem ofMarks_of_not_ascending {marks : List Int} (hlen : 2 ≤ marks.length)
    (h : ¬ marks.Pairwise (· < ·)) (figureLabel bucketLabel : String) :
    Histogram.ofMarks marks figureLabel bucketLabel = .error (.unsortedThresholds marks) := by
  have hunsorted : ¬ Thresholds.neighboursAscend marks = true :=
    fun hasc => h (Thresholds.neighboursAscend_iff.mp hasc)
  rw [Histogram.ofMarks, Thresholds.ofList, dif_pos hlen, dif_neg hunsorted]
  rfl

/-- The marks of queue sizes begin at zero and end at the open end.  They ascend and make a
histogram if the greatest size on offer is below the open end; or else the open end stands there
twice, all marks before the second one ascend, and a histogram is refused. -/
theorem sizeThresholds_ascend_or_end_twice (capacity cap : UInt64)
    (figureLabel bucketLabel : String) :
    (queueSizeThresholds capacity cap).head? = some 0 ∧
    (queueSizeThresholds capacity cap).getLast? = some highestEdge ∧
    ((topMark capacity.toNat cap.toNat : Int) < highestEdge ∧
        (queueSizeThresholds capacity cap).Pairwise (· < ·) ∧
        (∃ h, Histogram.ofMarks (queueSizeThresholds capacity cap) figureLabel bucketLabel =
          .ok h) ∨
      highestEdge ≤ (topMark capacity.toNat cap.toNat : Int) ∧
        (∃ front, queueSizeThresholds capacity cap = front ++ [highestEdge, highestEdge] ∧
          (front ++ [highestEdge]).Pairwise (· < ·)) ∧
        Histogram.ofMarks (queueSizeThresholds capacity cap) figureLabel bucketLabel =
          .error (.unsortedThresholds (queueSizeThresholds capacity cap))) := by
  have hlen := two_le_length_sizeThresholds capacity cap
  have hascend := sizeThresholds_ascend_iff capacity cap
  refine ⟨head?_sizeThresholds capacity cap, getLast?_sizeThresholds capacity cap, ?_⟩
  rcases Int.lt_or_le (topMark capacity.toNat cap.toNat) highestEdge with hbelow | hbeyond
  · have hasc := hascend.mpr hbelow
    exact .inl ⟨hbelow, hasc, (Histogram.exists_ofMarks_iff _ _ _).mpr ⟨hlen, hasc⟩⟩
  · have hnot : ¬ (queueSizeThresholds capacity cap).Pairwise (· < ·) :=
      fun hasc => absurd (hascend.mp hasc) (Int.not_lt.mpr hbeyond)
    exact .inr ⟨hbeyond, sizeThresholds_end_twice hbeyond,
      ofMarks_of_not_ascending hlen hnot figureLabel bucketLabel⟩

/-- With the greatest capacity and no cap the marks do not ascend, and make no histogram. -/
theorem sizeThresholds_of_greatest_capacity :
    ¬ (queueSizeThresholds 18446744073709551615 18446744073709551615).Pairwise (· < ·) ∧
      ¬ ∃ h, Histogram.ofMarks (queueSizeThresholds 18446744073709551615 18446744073709551615)
        "" "" = .ok h := by
  have hnot : ¬ (queueSizeThresholds 18446744073709551615 18446744073709551615).Pairwise (· < ·) :=
    (sizeThresholds_ascend_iff _ _).not.mpr (by decide)
  refine ⟨hnot, ?_⟩
  intro hmade
  exact hnot ((Histogram.exists_ofMarks_iff _ _ _).mp hmade).2

end WindowedStats
