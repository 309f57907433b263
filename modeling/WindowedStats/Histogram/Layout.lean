import WindowedStats.Histogram.Distribution
import WindowedStats.Json.Basic

/-!
# Layouts of distributions

An exported distribution is an object with one member per interval.  The intervals are the buckets
themselves, or all intervals from the first edge, or all intervals up to the last edge.  The two
cumulative layouts leave out the intervals that end at an edge with no value beyond it, and count
only the buckets that are not left out.
-/

namespace WindowedStats

/-- How the buckets of a distribution are exported. -/
inductive Layout where
  | separate
  | cumulativeLeft
  | cumulativeRight
deriving DecidableEq

/-- The layout where none is asked for. -/
instance : Inhabited Layout := ⟨.separate⟩

namespace Distribution

/-- Each bucket with the number of values counted up to it, `seen` before these buckets. -/
def runningCounts (seen : Nat) : List Bucket → List (Bucket × Nat)
  | [] => []
  | b :: rest => (b, seen + b.count) :: runningCounts (seen + b.count) rest

/-- The intervals of a layout with their counts, in the order of export. -/
def intervals (d : Distribution) : Layout → List (String × Nat)
  | .separate => d.buckets.map fun b => (b.label, b.count)
  | .cumulativeLeft =>
    match d.buckets.head? with
    | none => []
    | some first =>
      (runningCounts 0 (d.buckets.filter (·.high ≠ highestEdge))).map fun (b, n) =>
        (intervalText first.low b.high, n)
  | .cumulativeRight =>
    match d.buckets.getLast? with
    | none => []
    | some last =>
      (runningCounts 0 (d.buckets.reverse.filter (·.low ≠ lowestEdge))).map fun (b, n) =>
        (intervalText b.low last.high, n)

/-- The members of the exported object; `label` is appended to each key. -/
def members (d : Distribution) (layout : Layout) (label : String) : Json.Members :=
  Json.Members.ofList ((d.intervals layout).map fun (interval, n) => (interval ++ label, .ofNat n))

end Distribution

end WindowedStats
