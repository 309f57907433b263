import WindowedStats.Histogram.Marks
import WindowedStats.Word

/-!
# Thresholds of queue sizes

The sizes of a queue are counted between zero, the powers of four below its capacity, half and three
quarters of its capacity, and no upper limit.  A queue above the capacity cap has the powers of four
below the cap, and the cap itself instead of the two fractions.
-/

namespace WindowedStats

/-- A size as a threshold; sizes beyond the highest edge count as that edge. -/
def sizeMark (n : Nat) : Int := min (n : Int) highestEdge

/-- Appends a size if it is greater than the last mark. -/
def appendAbove (marks : List Int) (n : Nat) : List Int :=
  if marks.getLast?.any (· < sizeMark n) then marks ++ [sizeMark n] else marks

/-- Three quarters of a capacity, computed so that no step exceeds it. -/
def threeQuarters (capacity : Nat) : Nat := capacity / 4 * 3 + capacity % 4 * 3 / 4

/-- The thresholds for the sizes of a queue with a capacity, under a cap. -/
def queueSizeThresholds (capacity cap : UInt64) : List Int :=
  let bounded := min capacity.toNat cap.toNat
  let powers := geometricMarks 4 maxWord bounded 1 (by decide)
    (Nat.le_trans (Nat.min_le_left _ _) (toNat_le_maxWord capacity)) Nat.one_pos
  let marks := 0 :: powers.map sizeMark
  let marks :=
    if capacity.toNat = bounded then
      appendAbove (appendAbove marks (capacity.toNat / 2)) (threeQuarters capacity.toNat)
    else appendAbove marks bounded
  marks ++ [highestEdge]

end WindowedStats
