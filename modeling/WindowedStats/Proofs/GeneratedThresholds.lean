import WindowedStats.Proofs.HistogramValues
import WindowedStats.Proofs.SizeMarks

/-!
# Generated thresholds in closed form

Geometric thresholds and the thresholds of queue sizes are made in the same way: zero, then the
powers of a ratio as long as they are below a limit, then the open end, and for queue sizes up to
two marks before it.  The powers come from a product that stops at the greatest word.  It never
stops short of a power below the limit, since the limit is a word itself, and it reaches the limit
after as many rounds as the limit has digits.

The marks near the top are offered one by one, and each is kept only above the mark before it
(`keptAbove`).  Three quarters of a capacity are computed without a step that a word could not hold
(`Checked.threeQuarters`).

The results are `geometricThresholds_closed_form`, where a power below a signed word is below the
open end, so that the marks always make a histogram, and `sizeThresholds_closed_form`.
-/

namespace WindowedStats

/-! ## Geometric thresholds -/

/-- As many powers are below a limit as it has digits, or fewer. -/
theorem count_powers_le {ratio limit digits n : Nat} (hlimit : limit ≤ ratio ^ digits)
    (hn : ∀ k, k < n ↔ ratio ^ k < limit) : n ≤ digits := by
  by_contra hlt
  have hpow := (hn digits).mp (Nat.not_le.mp hlt)
  omega

/-- Geometric thresholds are the powers of their ratio below the limit, between zero and the open
end. -/
theorem geometricThresholds_eq (base limit : Int64) :
    ∃ n ≤ 63, (∀ k, k < n ↔ max base.toInt 2 ^ k < limit.toInt) ∧
      geometricThresholds base limit =
        0 :: (List.range n).map (fun k => max base.toInt 2 ^ k) ++ [highestEdge] := by
  have hword : limit.toInt.toNat ≤ highestEdge.toNat := by
    have := limit.toInt_lt
    simp only [highestEdge, greatestSigned]
    omega
  have hratio : 2 ≤ (max base.toInt 2).toNat := by omega
  have hcast : ∀ k, (((max base.toInt 2).toNat ^ k : Nat) : Int) = max base.toInt 2 ^ k := by
    intro k
    rw [Int.natCast_pow, Int.toNat_of_nonneg (by omega)]
  obtain ⟨n, hmarks, hn⟩ := geometricMarks_eq (max base.toInt 2).toNat highestEdge.toNat
    limit.toInt.toNat 1 hratio hword Nat.one_pos
  simp only [Nat.one_mul] at hmarks hn
  refine ⟨n, ?_, ?_, ?_⟩
  · refine count_powers_le ?_ hn
    calc limit.toInt.toNat
        ≤ highestEdge.toNat := hword
      _ ≤ 2 ^ 63 := by decide
      _ ≤ (max base.toInt 2).toNat ^ 63 := Nat.pow_le_pow_left hratio 63
  · intro k
    rw [hn k, Int.lt_toNat, hcast k]
  · simp only [geometricThresholds, hmarks, List.map_map, Function.comp_def, hcast]

theorem geometricThresholds_ascend (base limit : Int64) :
    (geometricThresholds base limit).Pairwise (· < ·) := by
  obtain ⟨n, -, hn, hmarks⟩ := geometricThresholds_eq base limit
  obtain ⟨ratio, hratio⟩ : ∃ ratio : Nat, (ratio : Int) = max base.toInt 2 :=
    ⟨(max base.toInt 2).toNat, Int.toNat_of_nonneg (by omega)⟩
  rw [hmarks, List.pairwise_append]
  refine ⟨?_, List.pairwise_singleton _ _, ?_⟩
  · simp only [← hratio, ← Int.natCast_pow]
    exact zero_powers_ascend (by omega) n
  -- A power is below the limit, which is a signed word.
  · intro v hv last hlast
    rw [List.mem_singleton.mp hlast]
    rcases List.mem_cons.mp hv with rfl | hv
    · decide
    · obtain ⟨k, hk, rfl⟩ := List.mem_map.mp hv
      have hbelow := (hn k).mp (List.mem_range.mp hk)
      have hword := limit.toInt_lt
      simp only [highestEdge, greatestSigned]
      omega

/-- For every base and limit, geometric thresholds are zero, then exactly the powers of the base
below the limit, of which there are at most 63, then the open end; a base below two counts as two.
They ascend, so they make a histogram. -/
theorem geometricThresholds_closed_form (base limit : Int64) (figureLabel bucketLabel : String) :
    (∃ n ≤ 63, (∀ k, k < n ↔ max base.toInt 2 ^ k < limit.toInt) ∧
      geometricThresholds base limit =
        0 :: (List.range n).map (fun k => max base.toInt 2 ^ k) ++ [highestEdge]) ∧
    (geometricThresholds base limit).Pairwise (· < ·) ∧
    ∃ h, Histogram.ofMarks (geometricThresholds base limit) figureLabel bucketLabel = .ok h := by
  have hasc := geometricThresholds_ascend base limit
  refine ⟨geometricThresholds_eq base limit, hasc, ?_⟩
  refine (Histogram.exists_ofMarks_iff _ _ _).mpr ⟨?_, hasc⟩
  simp [geometricThresholds]

/-! ## Marks that are kept -/

/-- The marks that are kept of those on offer, if each has to be above the one before it. -/
def keptAbove (last : Int) : List Int → List Int
  | [] => []
  | mark :: rest => if last < mark then mark :: keptAbove mark rest else keptAbove last rest

theorem foldl_appendAbove (sizes : List Nat) {marks : List Int} {last : Int}
    (h : marks.getLast? = some last) :
    sizes.foldl appendAbove marks = marks ++ keptAbove last (sizes.map sizeMark) := by
  induction sizes generalizing marks last with
  | nil => exact (List.append_nil marks).symm
  | cons n sizes ih =>
      rw [List.foldl_cons, List.map_cons, keptAbove]
      by_cases hlt : last < sizeMark n
      · have hkept : appendAbove marks n = marks ++ [sizeMark n] := by
          simp only [appendAbove, h, Option.any_some, hlt, decide_true, if_true]
        rw [hkept, ih List.getLast?_concat, if_pos hlt, List.append_assoc]
        rfl
      · have hleft : appendAbove marks n = marks := by
          simp only [appendAbove, h, Option.any_some, hlt, decide_false, Bool.false_eq_true,
            if_false]
        rw [hleft, ih h, if_neg hlt]

/-! ## Thresholds of queue sizes -/

/-- The sizes on offer as marks near the top: half and three quarters of a capacity, or the cap if
the capacity is above it. -/
def offeredSizes (capacity cap : Nat) : List Nat :=
  if capacity ≤ cap then [capacity / 2, 3 * capacity / 4] else [cap]

/-- Three quarters of a capacity, or nothing if a step on the way overflows. -/
def Checked.threeQuarters (capacity : Nat) : Option Nat := do
  let quarters ← mul? (capacity / 4) 3
  let rest ← mul? (capacity % 4) 3
  add? quarters (rest / 4)

theorem Checked.threeQuarters_eq {capacity : Nat} (h : capacity ≤ maxWord) :
    Checked.threeQuarters capacity = some (3 * capacity / 4) := by
  have hquarters : capacity / 4 * 3 ≤ maxWord := by omega
  have hrest : capacity % 4 * 3 ≤ maxWord := by
    simp only [maxWord]
    omega
  have hsum : capacity / 4 * 3 + capacity % 4 * 3 / 4 ≤ maxWord := by omega
  simp only [Checked.threeQuarters, mul?_of_le hquarters, mul?_of_le hrest, Option.bind_eq_bind,
    Option.bind_some, add?_of_le hsum]
  rw [← WindowedStats.threeQuarters_eq, WindowedStats.threeQuarters]

/-- The powers of four below a size, as marks, after zero. -/
def powerMarks (n : Nat) : List Int := (0 :: (List.range n).map (4 ^ ·)).map sizeMark

/-- For every capacity and cap, the thresholds of queue sizes are zero, then exactly the powers of
four below both, of which there are at most 32, then those on offer near the top that are above the
mark before them, then the open end; all sizes beyond the open end count as the open end.  What is
on offer is computed without overflow. -/
theorem sizeThresholds_closed_form (capacity cap : UInt64) :
    Checked.threeQuarters capacity.toNat = some (3 * capacity.toNat / 4) ∧
    ∃ n ≤ 32, (∀ k, k < n ↔ 4 ^ k < min capacity.toNat cap.toNat) ∧
      ∃ last, (powerMarks n).getLast? = some last ∧
        queueSizeThresholds capacity cap =
          powerMarks n ++ keptAbove last ((offeredSizes capacity.toNat cap.toNat).map sizeMark) ++
            [highestEdge] := by
  have hcapacity := toNat_le_maxWord capacity
  have hword : min capacity.toNat cap.toNat ≤ maxWord := le_trans (Nat.min_le_left _ _) hcapacity
  obtain ⟨n, hmarks, hn⟩ := geometricMarks_eq 4 maxWord (min capacity.toNat cap.toNat) 1
    (by decide) hword Nat.one_pos
  simp only [Nat.one_mul] at hmarks hn
  have hlast : (powerMarks n).getLast? = some ((powerMarks n).getLast (List.cons_ne_nil _ _)) :=
    List.getLast?_eq_some_getLast _
  refine ⟨Checked.threeQuarters_eq hcapacity, n, count_powers_le (le_trans hword (by decide)) hn,
    hn, _, hlast, ?_⟩
  rw [← foldl_appendAbove _ hlast]
  simp only [queueSizeThresholds, hmarks]
  split
  · next heq =>
    rw [offeredSizes, if_pos (by omega), ← threeQuarters_eq]
    rfl
  · next hne =>
    have hcap : min capacity.toNat cap.toNat = cap.toNat := by omega
    rw [offeredSizes, if_neg (by omega), hcap]
    rfl

end WindowedStats
