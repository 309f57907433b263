import WindowedStats.Histogram.Summary
import WindowedStats.Histogram.Tally

/-!
# Histograms

A histogram tallies values and keeps their number, sum and extremes.  A value outside the
thresholds is discarded: it is counted, but leaves all other figures as they are.
-/

namespace WindowedStats

/-- The figures over all values recorded so far, and the labels for their export. -/
structure Histogram where
  tally : Tally
  sum : Int
  accepted : Nat
  least : Option Int
  greatest : Option Int
  discarded : Nat
  figureLabel : String
  bucketLabel : String

namespace Histogram

/-- A histogram of no values. -/
def empty (t : Thresholds) (figureLabel bucketLabel : String) : Histogram :=
  ⟨.empty t, 0, 0, none, none, 0, figureLabel, bucketLabel⟩

/-- A histogram of no values with thresholds at the given marks. -/
def ofMarks (marks : List Int) (figureLabel bucketLabel : String) :
    Except SetupError Histogram := do
  return empty (← Thresholds.ofList marks) figureLabel bucketLabel

/-- The marks between the slots. -/
def marks (h : Histogram) : List Int := h.tally.thresholds.marks

/-- Records a value; also tells whether it was accepted. -/
def record (h : Histogram) (v : Int) : Histogram × Bool :=
  match h.tally.count? v with
  | none => ({ h with discarded := h.discarded + 1 }, false)
  | some tally =>
    ({ h with
        tally := tally
        sum := h.sum + v
        accepted := h.accepted + 1
        least := some (h.least.elim v (min · v))
        greatest := some (h.greatest.elim v (max · v)) }, true)

/-- Records a value and keeps no answer. -/
def push (h : Histogram) (v : Int) : Histogram := (h.record v).1

/-- Records a value several times; also tells how often it was accepted. -/
def recordTimes (h : Histogram) (v : Int) (times : Nat) : Histogram × Nat :=
  let after := times.repeat (fun (h : Histogram) => h.push v) h
  (after, after.accepted - h.accepted)

/-- The mean of the accepted values. -/
def average (h : Histogram) : Float :=
  if 0 < h.accepted then Float.ofInt h.sum / Float.ofNat h.accepted else 0.0 / 0.0

/-- The figures at this moment. -/
def summary (h : Histogram) : Summary :=
  ⟨h.average, h.greatest, h.least, h.sum, h.accepted, h.discarded, h.tally.distribution⟩

/-- The exported figures at this moment. -/
def toJson (h : Histogram) (layout : Layout) : Json :=
  h.summary.toJson layout h.figureLabel h.bucketLabel

/-! ## What recording a value does -/

theorem record_of_contains {h : Histogram} {v : Int} {t : Tally} (ht : h.tally.count? v = some t) :
    (h.record v).2 = true ∧ (h.push v).tally = t ∧ (h.push v).accepted = h.accepted + 1 ∧
      (h.push v).discarded = h.discarded := by
  simp [push, record, ht]

theorem record_of_not_contains {h : Histogram} {v : Int} (ht : h.tally.count? v = none) :
    h.record v = ({ h with discarded := h.discarded + 1 }, false) := by
  simp [record, ht]

end Histogram

end WindowedStats
