import WindowedStats.Duration.Basic

/-!
# Setup errors

What can be wrong with the parameters of a histogram, of a rate tracker and of the settings.
-/

namespace WindowedStats

/-- Why something cannot be set up. -/
inductive SetupError where
  /-- A histogram needs at least two thresholds. -/
  | tooFewThresholds (marks : List Int)
  /-- The thresholds of a histogram have to ascend. -/
  | unsortedThresholds (marks : List Int)
  /-- The ticks do not divide the window evenly. -/
  | unevenWindow (windowMillis tickMillis : Nat)
  /-- The rate window is empty. -/
  | emptyRateWindow
  /-- The rate window is shorter than a millisecond. -/
  | shortRateWindow (window : Duration)
  /-- The capacity cap is zero. -/
  | zeroCapacityCap
deriving DecidableEq

namespace SetupError

/-- Whether the thresholds of a histogram are wrong. -/
def isAboutThresholds : SetupError → Bool
  | tooFewThresholds _ | unsortedThresholds _ => true
  | _ => false

/-- Whether the window of a rate tracker is wrong. -/
def isAboutWindow : SetupError → Bool
  | unevenWindow _ _ => true
  | _ => false

/-- Whether a setting other than the thresholds is wrong. -/
def isAboutSettings : SetupError → Bool
  | emptyRateWindow | shortRateWindow _ | zeroCapacityCap => true
  | _ => false

/-- A list of thresholds between brackets. -/
def marksText (marks : List Int) : String := "[" ++ ", ".intercalate (marks.map toString) ++ "]"

/-- The wording of an error. -/
def message : SetupError → String
  | tooFewThresholds marks =>
    "Invalid histogram thresholds " ++ marksText marks ++ ": at least two thresholds are required"
  | unsortedThresholds marks =>
    "Invalid histogram thresholds " ++ marksText marks ++
      ": thresholds must be sorted in strictly ascending order"
  | unevenWindow windowMillis tickMillis =>
    "The bucket size (" ++ toString tickMillis ++ " ms) must divide the window size (" ++
      toString windowMillis ++ " ms) evenly"
  | emptyRateWindow => "rate_window must be positive, got 0s"
  | shortRateWindow window => "rate_window must be at least 1ms, got " ++ window.compact
  | zeroCapacityCap => "max_bucketed_capacity must be at least 1, got 0"

/-- A setup of two parts succeeds exactly if both of them do, whatever may be wrong with them. -/
theorem bind_eq_ok_iff {ε α β : Type} {x : Except ε α} {f : α → Except ε β} {b : β} :
    (x >>= f) = .ok b ↔ ∃ a, x = .ok a ∧ f a = .ok b := by
  cases x with
  | error e => simp [bind, Except.bind]
  | ok a => simp [bind, Except.bind]

/-- A check in front of a setup. -/
theorem check_eq_ok_iff {α : Type} {p : Prop} [Decidable p] {e : SetupError}
    {x : Except SetupError α} {a : α} :
    (if p then (throw e : Except SetupError PUnit) >>= fun _ => x else x) = .ok a ↔
      ¬ p ∧ x = .ok a := by
  by_cases h : p
  · simp [h, throw, throwThe, MonadExceptOf.throw, bind, Except.bind]
  · simp [h]

end SetupError

end WindowedStats
