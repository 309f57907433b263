import WindowedStats.Window.Sliding

/-!
# Moving averages

A moving average keeps the running sum and the number of the values in a sliding window.  A value is
added to the sum when it enters the window and taken off when it leaves; once the last value has
left, the sum is set to zero.  The numbers may be of any type with sums and differences, so the same
definitions serve floating-point and exact arithmetic.

As in a sliding window, `add` and `evict` are for a clock that stands still while they run, and
`addOn` and `evictOn` for one that may move.
-/

namespace WindowedStats

/-- A running sum and the number of its summands. -/
structure RunningTotal (ν : Type) where
  sum : ν
  count : Nat

namespace RunningTotal

variable {ν : Type} [OfNat ν 0] [Add ν] [Sub ν]

/-- The sum of no summands. -/
def empty : RunningTotal ν := ⟨0, 0⟩

/-- Adds a summand. -/
def record (t : RunningTotal ν) (v : ν) : RunningTotal ν := ⟨t.sum + v, t.count + 1⟩

/-- Takes a summand off. -/
def remove (t : RunningTotal ν) (v : ν) : RunningTotal ν :=
  let count := t.count - 1
  ⟨if count = 0 then 0 else t.sum - v, count⟩

end RunningTotal

/-- The values of a trailing window with their running total. -/
structure MovingAverage (ν : Type) where
  window : SlidingWindow ν
  total : RunningTotal ν

namespace MovingAverage

variable {ν : Type} [OfNat ν 0] [Add ν] [Sub ν]

/-- An average of no values. -/
def empty (length : Duration) : MovingAverage ν := ⟨.empty length, .empty⟩

/-- The window after an eviction, with the values that left taken off the total. -/
def ofEviction (total : RunningTotal ν) (r : SlidingWindow ν × List ν) : MovingAverage ν :=
  ⟨r.1, r.2.foldl RunningTotal.remove total⟩

/-- Adds a value at the instant `now`. -/
def add (a : MovingAverage ν) (now : Duration) (v : ν) : MovingAverage ν :=
  ofEviction (a.total.record v) (a.window.add now v)

/-- Lets the values that are too old at the instant `now` leave. -/
def evict (a : MovingAverage ν) (now : Duration) : MovingAverage ν :=
  ofEviction a.total (a.window.evict now)

/-- Adds a value while the clock may move. -/
def addOn (a : MovingAverage ν) (c : ClockReadings) (v : ν) : MovingAverage ν :=
  ofEviction (a.total.record v) (a.window.addOn c v)

/-- Lets the values that are too old leave, while the clock may move. -/
def evictOn (a : MovingAverage ν) (c : ClockReadings) : MovingAverage ν :=
  ofEviction a.total (a.window.evictOn c)

/-- The number of values in the window. -/
def size (a : MovingAverage ν) : Nat := a.window.size

/-- The quotient of the sum and the number of values, and zero if there are none. -/
def mean [Div ν] (ofNat : Nat → ν) (a : MovingAverage ν) : ν :=
  if a.total.count = 0 then 0 else a.total.sum / ofNat a.total.count

theorem addOn_still (a : MovingAverage ν) (now : Duration) (v : ν) :
    a.addOn (.still now) v = a.add now v := by
  rw [addOn, SlidingWindow.addOn_still, add]

omit [Add ν] in
theorem evictOn_still (a : MovingAverage ν) (now : Duration) :
    a.evictOn (.still now) = a.evict now := by
  rw [evictOn, SlidingWindow.evictOn_still, evict]

end MovingAverage

end WindowedStats
