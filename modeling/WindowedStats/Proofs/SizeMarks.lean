import Mathlib.Algebra.Order.Ring.Nat
import WindowedStats.Queue.SizeThresholds

/-!
# When the marks of a queue size ascend

The marks of a queue size are zero, some powers of four, at most two marks near the capacity or the
cap, and the open end.  Every part ascends by its own making: the powers are known in closed form
(`geometricMarks_eq`), and a mark is appended only above the last one (`AscendsTo.appendAbove`).
The open end alone is appended without a look at the last mark, so the whole list ascends exactly
if that mark is below it.

`topMark` names the greatest size that is offered as a mark, and `sizeThresholds_ascend_iff` says
that it decides the matter.
-/

namespace WindowedStats

/-! ## Powers below a limit -/

/-- The marks are all powers below the limit: a product that reaches the ceiling has reached the
limit too, so the ceiling itself is never a mark. -/
theorem geometricMarks_eq (ratio ceiling limit mark : Nat) (hr : 2 ≤ ratio) (hc : limit ≤ ceiling)
    (hm : 0 < mark) :
    ∃ n, geometricMarks ratio ceiling limit mark hr hc hm =
        (List.range n).map (fun k => mark * ratio ^ k) ∧
      ∀ k, k < n ↔ mark * ratio ^ k < limit := by
  have hpow : ∀ a k : Nat, a ≤ a * ratio ^ k := fun a k =>
    Nat.le_mul_of_pos_right a (Nat.pow_pos (by omega))
  fun_induction geometricMarks ratio ceiling limit mark hr hc hm with
  | case1 mark hm hlt ih =>
      obtain ⟨n, hmarks, hn⟩ := ih
      rw [hmarks]
      rcases Nat.le_total (mark * ratio) ceiling with hle | hge
      · have hnext : cappedMul ceiling mark ratio = mark * ratio := Nat.min_eq_left hle
        have hstep : ∀ k, mark * ratio ^ (k + 1) = mark * ratio * ratio ^ k := fun k => by
          rw [Nat.pow_succ, Nat.mul_assoc, Nat.mul_comm ratio]
        refine ⟨n + 1, ?_, ?_⟩
        · rw [List.range_succ_eq_map, List.map_cons, List.map_map]
          simp [hnext, hstep, Function.comp_def]
        · intro k
          cases k with
          | zero => simpa using hlt
          | succ k => rw [hstep, ← hnext, ← hn k]; omega
      -- The next mark would be the ceiling, which is not below the limit: the marks end here.
      · have hnext : cappedMul ceiling mark ratio = ceiling := Nat.min_eq_right hge
        have hnone : n = 0 := by
          have h0 := hn 0
          rw [hnext] at h0
          simp only [Nat.pow_zero, Nat.mul_one] at h0
          omega
        refine ⟨1, by simp [hnone], ?_⟩
        intro k
        cases k with
        | zero => simpa using hlt
        | succ k =>
            have := hpow (mark * ratio) k
            rw [Nat.pow_succ, Nat.mul_comm (ratio ^ k), ← Nat.mul_assoc]
            omega
  | case2 mark hm hge =>
      refine ⟨0, rfl, ?_⟩
      intro k
      have := hpow mark k
      omega

/-- Zero and the powers of a ratio ascend. -/
theorem zero_powers_ascend {ratio : Nat} (hr : 2 ≤ ratio) (n : Nat) :
    ((0 : Int) :: (List.range n).map fun k => ((ratio ^ k : Nat) : Int)).Pairwise (· < ·) := by
  refine List.pairwise_cons.mpr ⟨?_, List.pairwise_map.mpr ?_⟩
  · intro v hv
    obtain ⟨k, -, rfl⟩ := List.mem_map.mp hv
    exact Int.natCast_pos.mpr (Nat.pow_pos (by omega))
  · exact List.pairwise_lt_range.imp fun h => Int.ofNat_lt.mpr (Nat.pow_lt_pow_right hr h)

/-- A power of four that a word holds is below the open end. -/
theorem pow_four_lt_highestEdge {k : Nat} (h : 4 ^ k ≤ maxWord) :
    ((4 ^ k : Nat) : Int) < highestEdge := by
  have hk : k ≤ 31 := by
    by_contra hgt
    have : 4 ^ 32 ≤ 4 ^ k := Nat.pow_le_pow_right (by omega) (by omega)
    simp only [maxWord] at h
    omega
  have : 4 ^ k ≤ 4 ^ 31 := Nat.pow_le_pow_right (by omega) hk
  simp only [highestEdge, greatestSigned]
  omega

/-! ## Lists that ascend to a last mark -/

/-- The marks ascend, and `last` is the last of them. -/
def AscendsTo (marks : List Int) (last : Int) : Prop :=
  marks.Pairwise (· < ·) ∧ marks.getLast? = some last

theorem AscendsTo.append_iff {marks : List Int} {last v : Int} (h : AscendsTo marks last) :
    (marks ++ [v]).Pairwise (· < ·) ↔ last < v := by
  obtain ⟨hasc, hlast⟩ := h
  obtain ⟨before, rfl⟩ := List.getLast?_eq_some_iff.mp hlast
  constructor
  · intro hv
    exact (List.pairwise_append.mp hv).2.2 last (by simp) v (by simp)
  · intro hv
    refine List.pairwise_append.mpr ⟨hasc, List.pairwise_singleton _ _, ?_⟩
    intro a ha b hb
    rw [List.mem_singleton.mp hb]
    rcases List.mem_append.mp ha with ha | ha
    · exact Int.lt_trans ((List.pairwise_append.mp hasc).2.2 a ha last (by simp)) hv
    · rwa [List.mem_singleton.mp ha]

theorem AscendsTo.append {marks : List Int} {last v : Int} (h : AscendsTo marks last)
    (hv : last < v) : AscendsTo (marks ++ [v]) v :=
  ⟨h.append_iff.mpr hv, by simp⟩

theorem AscendsTo.appendAbove {marks : List Int} {last : Int} (h : AscendsTo marks last)
    (n : Nat) : AscendsTo (appendAbove marks n) (max last (sizeMark n)) := by
  simp only [WindowedStats.appendAbove, h.2, Option.any_some, decide_eq_true_eq]
  split
  · next hlt => rw [Int.max_eq_right (Int.le_of_lt hlt)]; exact h.append hlt
  · next hge => rw [Int.max_eq_left (Int.not_lt.mp hge)]; exact h

/-! ## The marks of a queue size -/

/-- As a mark, a power of four that a word holds is itself, and below the open end. -/
theorem sizeMark_pow_four {k : Nat} (h : 4 ^ k ≤ maxWord) :
    sizeMark (4 ^ k) = ((4 ^ k : Nat) : Int) := by
  have := pow_four_lt_highestEdge h
  rw [sizeMark]
  omega

/-- Zero and the powers of four below a size ascend to a mark below the open end. -/
theorem powers_ascend {bounded : Nat} (hb : bounded ≤ maxWord) :
    ∃ last, AscendsTo
        (0 :: (geometricMarks 4 maxWord bounded 1 (by omega) hb Nat.one_pos).map sizeMark) last ∧
      last < highestEdge := by
  obtain ⟨n, hmarks, hn⟩ := geometricMarks_eq 4 maxWord bounded 1 (by omega) hb Nat.one_pos
  have hword : ∀ k ∈ List.range n, 4 ^ k ≤ maxWord := fun k hk => by
    have := (hn k).mp (List.mem_range.mp hk)
    omega
  have hpowers : (List.range n).map (fun k => sizeMark (1 * 4 ^ k)) =
      (List.range n).map fun k => ((4 ^ k : Nat) : Int) :=
    List.map_congr_left fun k hk => by rw [Nat.one_mul, sizeMark_pow_four (hword k hk)]
  have hbelow : ∀ v ∈ (0 : Int) :: (List.range n).map fun k => ((4 ^ k : Nat) : Int),
      v < highestEdge := by
    intro v hv
    rcases List.mem_cons.mp hv with rfl | hv
    · decide
    · obtain ⟨k, hk, rfl⟩ := List.mem_map.mp hv
      exact pow_four_lt_highestEdge (hword k hk)
  rw [hmarks, List.map_map, Function.comp_def, hpowers]
  exact ⟨_, ⟨zero_powers_ascend (by decide) n,
    List.getLast?_eq_some_getLast (List.cons_ne_nil _ _)⟩, hbelow _ (List.getLast_mem _)⟩

/-- The greatest size that is offered as a mark for a capacity under a cap. -/
def topMark (capacity cap : Nat) : Nat := if capacity ≤ cap then 3 * capacity / 4 else cap

theorem threeQuarters_eq (capacity : Nat) : threeQuarters capacity = 3 * capacity / 4 := by
  rw [threeQuarters]
  omega

/-- The marks before the open end ascend, to a mark that is below the open end exactly if the
greatest size on offer is. -/
theorem sizeThresholds_split (capacity cap : UInt64) :
    ∃ marks last, queueSizeThresholds capacity cap = marks ++ [highestEdge] ∧
      AscendsTo marks last ∧
      (last < highestEdge ↔ (topMark capacity.toNat cap.toNat : Int) < highestEdge) := by
  have hword : min capacity.toNat cap.toNat ≤ maxWord :=
    le_trans (Nat.min_le_left _ _) (toNat_le_maxWord capacity)
  obtain ⟨last, hasc, hlast⟩ := powers_ascend hword
  simp only [queueSizeThresholds]
  split
  · next heq =>
    refine ⟨_, _, rfl, (hasc.appendAbove _).appendAbove _, ?_⟩
    rw [topMark, if_pos (by omega), threeQuarters_eq, sizeMark, sizeMark]
    omega
  · next hne =>
    refine ⟨_, _, rfl, hasc.appendAbove _, ?_⟩
    rw [topMark, if_neg (by omega), sizeMark]
    omega

theorem sizeThresholds_ascend_iff (capacity cap : UInt64) :
    (queueSizeThresholds capacity cap).Pairwise (· < ·) ↔
      (topMark capacity.toNat cap.toNat : Int) < highestEdge := by
  obtain ⟨marks, last, hmarks, hasc, htop⟩ := sizeThresholds_split capacity cap
  rw [hmarks, hasc.append_iff, htop]

theorem two_le_length_sizeThresholds (capacity cap : UInt64) :
    2 ≤ (queueSizeThresholds capacity cap).length := by
  obtain ⟨marks, last, hmarks, ⟨-, hlast⟩, -⟩ := sizeThresholds_split capacity cap
  obtain ⟨before, rfl⟩ := List.getLast?_eq_some_iff.mp hlast
  simp [hmarks]

end WindowedStats
