import WindowedStats.Histogram.Marks

/-!
# Distributions

A distribution is a row of buckets with their counts, as a histogram held them at one moment.  Its
upper percentile bounds are edges of buckets: the upper edge of the first bucket at which the
counts so far exceed the percentile.  A bucket without upper limit bounds nothing, and neither do
too few samples.
-/

namespace WindowedStats

/-- A count with the edges of the interval in which the values lie. -/
structure Bucket where
  low : Int
  high : Int
  count : Nat
deriving DecidableEq

namespace Bucket

/-- The text of the interval of a bucket. -/
def label (b : Bucket) : String := intervalText b.low b.high

/-- The upper edge of a bucket, unless the bucket has no upper limit. -/
def limit? (b : Bucket) : Option Int := if b.high = highestEdge then none else some b.high

end Bucket

/-- A row of buckets at one moment. -/
structure Distribution where
  buckets : List Bucket
deriving DecidableEq

namespace Distribution

/-- The number of values in some buckets. -/
def sumCounts : List Bucket → Nat
  | [] => 0
  | b :: rest => b.count + sumCounts rest

@[simp] theorem sumCounts_append (bs cs : List Bucket) :
    sumCounts (bs ++ cs) = sumCounts bs + sumCounts cs := by
  induction bs with
  | nil => simp [sumCounts]
  | cons b rest ih => simp [sumCounts, ih, Nat.add_assoc]

/-- The number of values. -/
def total (d : Distribution) : Nat := sumCounts d.buckets

/-- The first bucket at which more than `part` of the `whole` of all `total` values, `seen` before
these buckets, have been counted. -/
def bucketAbove? (part whole total : Nat) : Nat → List Bucket → Option Bucket
  | _, [] => none
  | seen, b :: rest =>
    if total * part < (seen + b.count) * whole then some b
    else bucketAbove? part whole total (seen + b.count) rest

/-- The bound below which more than `part` of the `whole` of all values lie, given at least
`leastSamples` of them. -/
def upperBound? (d : Distribution) (leastSamples part whole : Nat) : Option Int :=
  if d.total < leastSamples then none
  else (bucketAbove? part whole d.total 0 d.buckets).bind Bucket.limit?

/-- The upper bound of 99% of the values; it takes a hundred samples. -/
def p99? (d : Distribution) : Option Int := d.upperBound? 100 99 100

/-- The upper bound of 99.9% of the values; it takes a thousand samples. -/
def p999? (d : Distribution) : Option Int := d.upperBound? 1000 999 1000

end Distribution

end WindowedStats
