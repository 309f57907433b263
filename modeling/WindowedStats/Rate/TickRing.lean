import Std.Data.TreeMap.Lemmas

/-!
# Tick rings

A tick ring counts events per tick over a window that covers the oldest live tick and the `span`
ticks after it.  The counters stand in a circle of `span + 1` slots, and a running total is kept
beside them.  Ticks that have left the window are swept lazily, right before a newer tick is looked
at; a sweep stops early once nothing is left, so it visits each slot at most once.

`get_set` and `get_clear` describe the slots, of which only those that are not zero are stored.
-/

namespace WindowedStats

/-- The counters of a ring; those that are not stored are zero. -/
structure TickRing.Slots where
  stored : Std.TreeMap Nat Nat

namespace TickRing.Slots

/-- All counters at zero. -/
def empty : Slots := ⟨∅⟩

/-- The counter at an index. -/
def get (s : Slots) (i : Nat) : Nat := s.stored.getD i 0

/-- Changes the counter at an index. -/
def set (s : Slots) (i n : Nat) : Slots := ⟨s.stored.insert i n⟩

/-- Sets the counter at an index to zero. -/
def clear (s : Slots) (i : Nat) : Slots := ⟨s.stored.erase i⟩

@[simp] theorem get_empty (i : Nat) : empty.get i = 0 := by
  simp [empty, get]

theorem get_set (s : Slots) (i n j : Nat) : (s.set i n).get j = if i = j then n else s.get j := by
  simp only [get, set, Std.TreeMap.getD_insert, Nat.compare_eq_eq]

theorem get_clear (s : Slots) (i j : Nat) : (s.clear i).get j = if i = j then 0 else s.get j := by
  simp only [get, clear, Std.TreeMap.getD_erase, Nat.compare_eq_eq]

end TickRing.Slots

/-- Counters for the live ticks of a window. -/
structure TickRing where
  /-- The number of ticks in the window besides the oldest one. -/
  span : Nat
  slots : TickRing.Slots
  /-- The index of the slot of the oldest live tick. -/
  oldestIndex : Nat
  /-- The oldest tick in the window. -/
  oldestTick : Nat
  /-- The sum of all counters. -/
  total : Nat

namespace TickRing

/-- The ring without events whose window starts at the first tick. -/
def empty (span : Nat) : TickRing := ⟨span, .empty, 0, 0, 0⟩

/-- The number of slots. -/
def size (r : TickRing) : Nat := r.span + 1

/-- Drops the oldest tick. -/
def dropOldest (r : TickRing) : TickRing :=
  { r with
    total := r.total - r.slots.get r.oldestIndex
    slots := r.slots.clear r.oldestIndex
    oldestIndex := (r.oldestIndex + 1) % r.size
    oldestTick := r.oldestTick + 1 }

/-- Drops the given number of oldest ticks, or fewer if nothing is left before. -/
def sweep : Nat → TickRing → TickRing
  | 0, r => r
  | ticks + 1, r =>
    let r := r.dropOldest
    if r.total = 0 then r else sweep ticks r

/-- Moves the window forward to the one that ends at the tick `now`, if that is ahead. -/
def advance (r : TickRing) (now : Nat) : TickRing :=
  let newOldest := now - r.span
  if newOldest ≤ r.oldestTick then r
  else { sweep (newOldest - r.oldestTick) r with oldestTick := newOldest }

/-- The index of the slot of a live tick. -/
def index (r : TickRing) (tick : Nat) : Nat := (r.oldestIndex + (tick - r.oldestTick)) % r.size

/-- Adds to the counter of a live tick. -/
def bump (r : TickRing) (count tick : Nat) : TickRing :=
  let i := r.index tick
  { r with slots := r.slots.set i (r.slots.get i + count), total := r.total + count }

/-- Counts events at the tick `now` and moves the window forward, unless the window has already left
that tick behind. -/
def add? (r : TickRing) (count now : Nat) : Option TickRing :=
  if now < r.oldestTick then none else some ((r.advance now).bump count now)

end TickRing

end WindowedStats
