import WindowedStats.Histogram.Thresholds
import WindowedStats.Histogram.Distribution

/-!
# Tallies

A tally counts values into the slots between thresholds.
-/

namespace WindowedStats

/-- The number of values counted into each slot. -/
structure Tally where
  thresholds : Thresholds
  counts : List Nat
  length_counts : counts.length = thresholds.size

namespace Tally

/-- The tally of no values. -/
def empty (t : Thresholds) : Tally := ⟨t, List.replicate t.size 0, List.length_replicate⟩

/-- The number of slots. -/
def size (t : Tally) : Nat := t.counts.length

/-- Counts a value, if some slot holds it. -/
def count? (t : Tally) (v : Int) : Option Tally :=
  if t.thresholds.contains v then
    some { t with
      counts := t.counts.modify (t.thresholds.slot v) (· + 1)
      length_counts := by rw [List.length_modify, t.length_counts] }
  else none

theorem count?_eq_none_iff {t : Tally} {v : Int} :
    t.count? v = none ↔ t.thresholds.contains v = false := by
  unfold count?
  split <;> simp_all

/-- The counts with the marks around each slot. -/
def distribution (t : Tally) : Distribution :=
  let marks := t.thresholds.marks
  ⟨List.zipWith (fun edges n => ⟨edges.1, edges.2, n⟩) (marks.zip marks.tail) t.counts⟩

end Tally

end WindowedStats
