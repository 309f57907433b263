import WindowedStats.Histogram.Layout

/-!
# Summaries

What a histogram shows at one moment: the figures over all values that it accepted, the number of
values that it discarded, and the distribution.
-/

namespace WindowedStats

/-- The figures of a histogram at one moment. -/
structure Summary where
  /-- The mean of the accepted values, NaN if there are none. -/
  average : Float
  greatest : Option Int
  least : Option Int
  /-- The sum of the accepted values. -/
  sum : Int
  accepted : Nat
  discarded : Nat
  distribution : Distribution
deriving BEq

/-- What an exported percentile bound is if it is undefined. -/
def undefinedBound : Int := -1

namespace Summary

/-- A sum as a value: a whole number if it fits 64 bits, and else the nearest floating-point
number. -/
def sumJson (sum : Int) : Json :=
  if lowestEdge ≤ sum && sum ≤ highestEdge then .int sum else .ofFloat (Float.ofInt sum)

/-- The members of the exported figures: `figureLabel` is appended to the keys of the average and
the extremes, `bucketLabel` to those of the buckets. -/
def toJson (s : Summary) (layout : Layout) (figureLabel bucketLabel : String) : Json :=
  .obj <| Json.Members.ofList [
    ("average" ++ figureLabel, .ofFloat s.average),
    ("max" ++ figureLabel, .ofOption .int s.greatest),
    ("min" ++ figureLabel, .ofOption .int s.least),
    ("total_value", sumJson s.sum),
    ("total_count", .ofNat s.accepted),
    ("discarded", .ofNat s.discarded),
    ("buckets", .obj (s.distribution.members layout bucketLabel)),
    ("p99_upper_bound", .int (s.distribution.p99?.getD undefinedBound)),
    ("p999_upper_bound", .int (s.distribution.p999?.getD undefinedBound))]

end Summary

end WindowedStats
