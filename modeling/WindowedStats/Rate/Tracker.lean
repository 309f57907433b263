import WindowedStats.Rate.TickRing
import WindowedStats.SetupError

/-!
# Rate trackers

A rate tracker divides time into ticks of a fixed length and counts events over a window of whole
ticks.  Times are given in milliseconds and may go back; an event older than the window is too late
to count and is reported as a late update.
-/

namespace WindowedStats

/-- The number of events per second that one event per millisecond amounts to. -/
def perSecond : Float := 1000.0

/-- An event that was too old to count. -/
structure LateUpdate where
  millis : Nat
  count : Nat
deriving DecidableEq

/-- A count of events over a trailing window. -/
structure RateTracker where
  ring : TickRing
  tickMillis : Nat
  windowMillis : Nat
  tickMillis_pos : 0 < tickMillis

namespace RateTracker

/-- A tracker over the given number of ticks. -/
def ofTicks (ticks : Nat) (tick : Duration) : Except SetupError RateTracker :=
  let tickMillis := tick.wholeMillis
  let windowMillis := min (tickMillis * ticks) maxWord
  if h : ticks = 0 ∨ tickMillis = 0 then .error (.unevenWindow windowMillis tickMillis)
  else .ok ⟨.empty ticks, tickMillis, windowMillis, by omega⟩

/-- A tracker over a window that is divided into ticks. -/
def ofWindow (window tick : Duration) : Except SetupError RateTracker :=
  let windowMillis := window.wholeMillis
  let tickMillis := tick.wholeMillis
  if windowMillis = 0 ∨ tickMillis = 0 ∨ windowMillis % tickMillis ≠ 0 then
    .error (.unevenWindow windowMillis tickMillis)
  else ofTicks (windowMillis / tickMillis) tick

/-- A new tracker has no events, and the lengths of its ticks and of all of them. -/
theorem ofTicks_eq_ok {ticks : Nat} {tick : Duration} {t : RateTracker}
    (h : ofTicks ticks tick = .ok t) :
    t.ring = .empty ticks ∧ t.tickMillis = tick.wholeMillis ∧
      t.windowMillis = min (tick.wholeMillis * ticks) maxWord := by
  simp only [ofTicks] at h
  split at h
  · cases h
  · cases h
    exact ⟨rfl, rfl, rfl⟩

/-- A tracker over a window has the ticks that fit the window. -/
theorem ofWindow_eq_ok {window tick : Duration} {t : RateTracker} (h : ofWindow window tick = .ok t) :
    ofTicks (window.wholeMillis / tick.wholeMillis) tick = .ok t := by
  simp only [ofWindow] at h
  split at h
  · cases h
  · exact h

/-- Counts events at a time; also gives the update back if it was too late. -/
def update (t : RateTracker) (count millis : Nat) : RateTracker × Option LateUpdate :=
  match t.ring.add? count (millis / t.tickMillis) with
  | some ring => ({ t with ring := ring }, none)
  | none => (t, some ⟨millis, count⟩)

/-- Moves the window forward to a time, if that is ahead. -/
def advance (t : RateTracker) (millis : Nat) : RateTracker :=
  { t with ring := t.ring.advance (millis / t.tickMillis) }

/-- The number of events in the window. -/
def total (t : RateTracker) : Nat := t.ring.total

/-- The number of events in the window at a time. -/
def countAt (t : RateTracker) (millis : Nat) : RateTracker × Nat :=
  let t := t.advance millis
  (t, t.total)

/-- The mean number of events per millisecond in the window, times `scale` and rounded to the
nearest whole number that 64 bits hold. -/
def scaledRate (t : RateTracker) (scale : Float) : Nat :=
  (Float.ofNat t.total * scale / Float.ofNat t.windowMillis + 0.5).toUInt64.toNat

/-- The number of events per second at a time. -/
def rateAt (t : RateTracker) (millis : Nat) : RateTracker × Nat :=
  let t := t.advance millis
  (t, t.scaledRate perSecond)

end RateTracker

end WindowedStats
