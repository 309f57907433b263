import WindowedStats.Rate.Tracker

/-!
# Scaled rates

A scaled rate counts in ticks of one millisecond and reports its rate in a unit of its own.  The
scale is the number of these units per second that one event per millisecond amounts to; it is
applied only when the rate is read.
-/

namespace WindowedStats

/-- The window of a scaled rate where none is given, in milliseconds. -/
def defaultWindowMillis : Nat := 1000

/-- The scale where none is given: bytes are counted and bits per second are reported. -/
def defaultScale : Float := 8000.0

/-- A rate in a unit of its own. -/
structure ScaledRate where
  tracker : RateTracker
  scale : Float

namespace ScaledRate

/-- A rate over a window. -/
def ofWindow (window : Duration) (scale : Float) : Except SetupError ScaledRate := do
  return ⟨← RateTracker.ofWindow window (.ofMillis 1), scale⟩

/-- A rate with the default window and scale. -/
def standard : Except SetupError ScaledRate := ofWindow (.ofMillis defaultWindowMillis) defaultScale

/-- Counts events at a time; also gives the update back if it was too late. -/
def update (r : ScaledRate) (count millis : Nat) : ScaledRate × Option LateUpdate :=
  let (tracker, late) := r.tracker.update count millis
  ({ r with tracker := tracker }, late)

/-- The number of events in the window at a time. -/
def countAt (r : ScaledRate) (millis : Nat) : ScaledRate × Nat :=
  let (tracker, n) := r.tracker.countAt millis
  ({ r with tracker := tracker }, n)

/-- The rate at a time, in the unit of the scale. -/
def rateAt (r : ScaledRate) (millis : Nat) : ScaledRate × Nat :=
  let tracker := r.tracker.advance millis
  ({ r with tracker := tracker }, tracker.scaledRate r.scale)

/-- The rate at a time, in events per second. -/
def unscaledRateAt (r : ScaledRate) (millis : Nat) : ScaledRate × Nat :=
  let (tracker, n) := r.tracker.rateAt millis
  ({ r with tracker := tracker }, n)

end ScaledRate

end WindowedStats
