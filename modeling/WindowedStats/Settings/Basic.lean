import WindowedStats.Histogram.Thresholds

/-!
# Settings

The switches that decide how much a queue keeps track of, the window of its rates and the shape of
its histograms.  Settings that `validate` accepts are sound in themselves; whether a histogram or a
rate tracker can be built with them is decided where that is done.
-/

namespace WindowedStats

/-- How much is kept track of for each queue. -/
structure Settings where
  /-- Keep a record per observer beside the shared one. -/
  localStats : Bool
  /-- Remember when items were added, and record waiting times. -/
  trackWaitTimes : Bool
  /-- Keep rates of additions, removals and drops. -/
  trackRates : Bool
  /-- The window of the rates. -/
  rateWindow : Duration
  /-- The thresholds of waiting times, in milliseconds. -/
  waitThresholds : List Int64
  /-- The greatest capacity for which thresholds of queue sizes are made. -/
  capacityCap : UInt64
deriving DecidableEq

namespace Settings

/-- The window of rates where none is given. -/
def defaultRateWindow : Duration := .ofSeconds 5

/-- The thresholds of waiting times where none are given. -/
def defaultWaitThresholds : List Int64 := [0, 2, 5, 20, 50, 200, 500, 1000, Int64.maxValue]

/-- The capacity cap where none is given. -/
def defaultCapacityCap : UInt64 := 16384

/-- The settings where nothing is given. -/
def standard : Settings where
  localStats := false
  trackWaitTimes := false
  trackRates := true
  rateWindow := defaultRateWindow
  waitThresholds := defaultWaitThresholds
  capacityCap := defaultCapacityCap

instance : Inhabited Settings := ⟨standard⟩

/-- The thresholds of waiting times, as numbers. -/
def waitMarks (s : Settings) : List Int := s.waitThresholds.map Int64.toInt

/-- Checks each setting on its own; the first fault counts. -/
def validate (s : Settings) : Except SetupError Unit := do
  if s.rateWindow = .zero then throw .emptyRateWindow
  if s.rateWindow < .ofMillis 1 then throw (.shortRateWindow s.rateWindow)
  if s.capacityCap = 0 then throw .zeroCapacityCap
  discard (Thresholds.ofList s.waitMarks)

/-- The settings themselves, if they are valid. -/
def validated (s : Settings) : Except SetupError Settings := do
  s.validate
  return s

end Settings

end WindowedStats
