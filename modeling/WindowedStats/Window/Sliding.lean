import WindowedStats.Duration.Basic
import WindowedStats.Window.EvictingQueue

/-!
# Sliding windows

A sliding window holds values with the instants at which they were added, and evicts from the oldest
on the values whose age exceeds the length of the window.  Age is measured to the instant of the
eviction; a value from a later instant has no age.

An operation looks at the clock more than once: when a value enters, and again each time it looks at
the oldest value.  `add` and `evict` take one instant for all of these, as on a clock that stands
still while the operation runs.  `addOn` and `evictOn` take all that the clock shows meanwhile
(`ClockReadings`), and are `add` and `evict` on a clock that stands still (`addOn_still`,
`evictOn_still`).
-/

namespace WindowedStats

/-- A value with the instant at which it was added. -/
structure Timed (α : Type) where
  value : α
  addedAt : Duration

/-- What a clock shows while an operation runs. -/
structure ClockReadings where
  /-- The instant at which a value enters. -/
  entry : Duration
  /-- The instant at which an eviction looks at the oldest value after `n` others have gone. -/
  look (n : Nat) : Duration

/-- What a clock shows that stands still. -/
def ClockReadings.still (now : Duration) : ClockReadings := ⟨now, fun _ => now⟩

/-- The values of a trailing window. -/
structure SlidingWindow (α : Type) where
  length : Duration
  queue : EvictingQueue (Timed α)

namespace SlidingWindow

variable {α : Type}

/-- A window without values. -/
def empty (length : Duration) : SlidingWindow α := ⟨length, .empty⟩

/-- Whether a value is too old at the instant `now`. -/
def isStale (length now : Duration) (t : Timed α) : Bool := length < now - t.addedAt

/-- The window and the values that left it. -/
def ofEviction (w : SlidingWindow α) (r : EvictingQueue (Timed α) × List (Timed α)) :
    SlidingWindow α × List α :=
  ({ w with queue := r.1 }, r.2.map Timed.value)

/-- Evicts at the instant `now`; also gives the values that left, oldest first. -/
def evict (w : SlidingWindow α) (now : Duration) : SlidingWindow α × List α :=
  w.ofEviction (w.queue.evict (isStale w.length now))

/-- Adds a value at the instant `now` and then evicts. -/
def add (w : SlidingWindow α) (now : Duration) (v : α) : SlidingWindow α × List α :=
  w.ofEviction (w.queue.push (isStale w.length now) ⟨v, now⟩)

/-- Evicts while the clock may move. -/
def evictOn (w : SlidingWindow α) (c : ClockReadings) : SlidingWindow α × List α :=
  w.ofEviction (w.queue.evictEach fun n => isStale w.length (c.look n))

/-- Adds a value and then evicts, while the clock may move. -/
def addOn (w : SlidingWindow α) (c : ClockReadings) (v : α) : SlidingWindow α × List α :=
  w.ofEviction (w.queue.pushEach (fun n => isStale w.length (c.look n)) ⟨v, c.entry⟩)

/-- Removes all values; none of them counts as evicted. -/
def clear (w : SlidingWindow α) : SlidingWindow α := { w with queue := w.queue.clear }

/-- The values with their instants, oldest first. -/
def entries (w : SlidingWindow α) : List (Timed α) := w.queue.entries

/-- The values, oldest first. -/
def values (w : SlidingWindow α) : List α := w.entries.map Timed.value

/-- The number of values. -/
def size (w : SlidingWindow α) : Nat := w.queue.size

/-- Whether there are no values. -/
def isEmpty (w : SlidingWindow α) : Bool := w.queue.isEmpty

/-- The text of a value with its instant. -/
def entryText (valueText : α → String) (t : Timed α) : String :=
  "TimeEntry \x7b value: " ++ valueText t.value ++ ", inserted_at: " ++ t.addedAt.compact ++ " \x7d"

/-- The text of a window, given that of its values. -/
def describe (valueText : α → String) (w : SlidingWindow α) : String :=
  "TimeBasedSlidingWindow \x7b window_size: " ++ w.length.compact ++ ", queue: " ++
    w.queue.describe (entryText valueText) ++ ", .. \x7d"

/-! ## What each operation does to the entries -/

@[simp] theorem entries_evict (w : SlidingWindow α) (now : Duration) :
    (w.evict now).1.entries = w.entries.dropWhile (isStale w.length now) := rfl

@[simp] theorem entries_add (w : SlidingWindow α) (now : Duration) (v : α) :
    (w.add now v).1.entries =
      (w.entries ++ [(⟨v, now⟩ : Timed α)]).dropWhile (isStale w.length now) := rfl

@[simp] theorem entries_clear (w : SlidingWindow α) : w.clear.entries = [] := rfl

theorem evictOn_still (w : SlidingWindow α) (now : Duration) :
    w.evictOn (.still now) = w.evict now :=
  congrArg w.ofEviction (EvictingQueue.evictEach_const (isStale w.length now) w.queue)

theorem addOn_still (w : SlidingWindow α) (now : Duration) (v : α) :
    w.addOn (.still now) v = w.add now v :=
  congrArg w.ofEviction (EvictingQueue.pushEach_const (isStale w.length now) ⟨v, now⟩ w.queue)

end SlidingWindow

end WindowedStats
