import WindowedStats.Rate.Tracker

/-!
# Rings and trackers in words

The counters of a ring, their total, its ticks and its indices are words.  The operations here look
at each of their steps: a sum or a difference that no word holds is left to `Overflow`, and an index
outside the buffer stops the program in any case.  Otherwise they do what those of `TickRing` and
`RateTracker` do, which count in numbers of any size.

A sweep is given the rule by which it stops early, and counts its rounds.  The rule of a ring is
`isEmpty`.
-/

namespace WindowedStats

namespace WordRing

/-- Nothing is left in the ring. -/
def isEmpty (r : TickRing) : Bool := r.total = 0

/-- The counter at an index, which must lie in the buffer. -/
def slot? (r : TickRing) (i : Nat) : Option Nat :=
  if i < r.size then some (r.slots.get i) else none

variable (o : Overflow)

/-- Drops the oldest tick. -/
def dropOldest (r : TickRing) : Option TickRing := do
  let total ← o.sub r.total (← slot? r r.oldestIndex)
  let index ← o.add r.oldestIndex 1
  let tick ← o.add r.oldestTick 1
  return { r with
    total := total
    slots := r.slots.clear r.oldestIndex
    oldestIndex := index % r.size
    oldestTick := tick }

/-- Drops the given number of oldest ticks, or fewer if the rule says to stop after one of them;
counts the rounds, on from the given number. -/
def sweep (stop : TickRing → Bool) : Nat → TickRing × Nat → Option (TickRing × Nat)
  | 0, s => some s
  | ticks + 1, (r, rounds) => do
    let r ← dropOldest o r
    if stop r then some (r, rounds + 1) else sweep stop ticks (r, rounds + 1)

/-- Moves the window forward to the one that ends at the tick `now`, if that is ahead; also gives
the number of rounds of the sweep. -/
def advanceUntil (stop : TickRing → Bool) (r : TickRing) (now : Nat) : Option (TickRing × Nat) :=
  let newOldest := now - r.span
  if newOldest ≤ r.oldestTick then some (r, 0)
  else do
    let (swept, rounds) ← sweep o stop (newOldest - r.oldestTick) (r, 0)
    return ({ swept with oldestTick := newOldest }, rounds)

/-- Moves the window forward to the one that ends at the tick `now`, if that is ahead. -/
def advance (r : TickRing) (now : Nat) : Option TickRing := do
  let (moved, _) ← advanceUntil o isEmpty r now
  return moved

/-- Adds to the counter of a live tick. -/
def bump (r : TickRing) (count tick : Nat) : Option TickRing := do
  let place ← o.add r.oldestIndex (← o.sub tick r.oldestTick)
  let i := place % r.size
  let counter ← o.add (← slot? r i) count
  let total ← o.add r.total count
  return { r with slots := r.slots.set i counter, total := total }

/-- Counts events at the tick `now` and moves the window forward, unless the window has already left
that tick behind; also says which of the two. -/
def add (r : TickRing) (count now : Nat) : Option (TickRing × Bool) :=
  if now < r.oldestTick then some (r, false)
  else do
    let moved ← advance o r now
    let raised ← bump o moved count now
    return (raised, true)

end WordRing

namespace WordTracker

variable (o : Overflow)

/-- Counts events at a time; also gives the update back if it was too late. -/
def update (t : RateTracker) (count millis : Nat) : Option (RateTracker × Option LateUpdate) := do
  let (ring, accepted) ← WordRing.add o t.ring count (millis / t.tickMillis)
  return ({ t with ring := ring }, if accepted then none else some ⟨millis, count⟩)

/-- Moves the window forward to a time, if that is ahead. -/
def advance (t : RateTracker) (millis : Nat) : Option RateTracker := do
  let ring ← WordRing.advance o t.ring (millis / t.tickMillis)
  return { t with ring := ring }

/-- The number of events in the window at a time. -/
def countAt (t : RateTracker) (millis : Nat) : Option (RateTracker × Nat) := do
  let t ← advance o t millis
  return (t, t.total)

/-- The number of events at a time, per millisecond and times `scale`. -/
def rateAt (scale : Float) (t : RateTracker) (millis : Nat) : Option (RateTracker × Nat) := do
  let t ← advance o t millis
  return (t, t.scaledRate scale)

end WordTracker

end WindowedStats
