import WindowedStats.Word

/-!
# Edges and marks

The values of a histogram are signed words, and their intervals begin and end at edges.  An edge at
either end of the range has no value beyond it, so an interval that ends there is open.

Thresholds at the powers of a ratio give every order of magnitude the same number of slots.  Powers
grow until they reach a limit; a power that the number type cannot hold counts as its greatest
number, so the limit is always reached.
-/

namespace WindowedStats

/-! ## Edges -/

/-- The edge below which there is no value. -/
def lowestEdge : Int := leastSigned

/-- The edge above which there is no value. -/
def highestEdge : Int := greatestSigned

/-- The text of an edge; the edges without a value beyond them have names. -/
def edgeText (edge : Int) : String :=
  if edge = lowestEdge then "min" else if edge = highestEdge then "max" else toString edge

/-- The text of the interval between two edges. -/
def intervalText (low high : Int) : String := edgeText low ++ "_to_" ++ edgeText high

/-! ## Geometric marks -/

/-- The product of two numbers, or `ceiling` if it is greater. -/
def cappedMul (ceiling a b : Nat) : Nat := min (a * b) ceiling

/-- The marks `mark, mark * ratio, …` below `limit`. -/
def geometricMarks (ratio ceiling limit mark : Nat) (hr : 2 ≤ ratio) (hc : limit ≤ ceiling)
    (hm : 0 < mark) : List Nat :=
  if _h : mark < limit then
    mark :: geometricMarks ratio ceiling limit (cappedMul ceiling mark ratio) hr hc (by
      have := Nat.mul_pos hm (Nat.lt_of_lt_of_le Nat.two_pos hr)
      simp only [cappedMul]
      omega)
  else []
termination_by limit - mark
decreasing_by
  have : mark * 2 ≤ mark * ratio := Nat.mul_le_mul_left mark hr
  simp only [cappedMul]
  omega

/-- Thresholds at zero, at the powers of `base` below `limit`, and at the highest edge.  A base
below two counts as two. -/
def geometricThresholds (base limit : Int64) : List Int :=
  let powers := geometricMarks (max base.toInt 2).toNat highestEdge.toNat limit.toInt.toNat 1
    (by omega) (by have := limit.toInt_lt; simp only [highestEdge, greatestSigned]; omega)
    Nat.one_pos
  0 :: powers.map (Nat.cast ·) ++ [highestEdge]

end WindowedStats
