/-!
# Keys of settings

The names of the settings in a document, in the order in which they are written.
-/

namespace WindowedStats

/-- A setting, as a document names it. -/
inductive Settings.Key where
  | localStats
  | trackWaitTimes
  | trackRates
  | rateWindow
  | waitThresholds
  | capacityCap
deriving DecidableEq

namespace Settings.Key

/-- The name of a setting. -/
def name : Key → String
  | localStats => "local_stats"
  | trackWaitTimes => "track_wait_times"
  | trackRates => "track_rates"
  | rateWindow => "rate_window"
  | waitThresholds => "wait_time_thresholds_ms"
  | capacityCap => "max_bucketed_capacity"

/-- All settings, in the order in which they are written. -/
def all : List Key :=
  [localStats, trackWaitTimes, trackRates, rateWindow, waitThresholds, capacityCap]

/-- The setting with a name. -/
def ofName? (name : String) : Option Key := all.find? fun k => k.name = name

end Settings.Key

end WindowedStats
