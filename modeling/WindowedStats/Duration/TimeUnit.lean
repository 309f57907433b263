import WindowedStats.Duration.Basic

/-!
# Units of time

The units in which a duration can be spelled.  A month and a year are fixed numbers of seconds: a
year has 365.25 days and a month is 30.44 days.
-/

namespace WindowedStats

/-- A unit of time. -/
inductive TimeUnit where
  | nanosecond
  | microsecond
  | millisecond
  | second
  | minute
  | hour
  | day
  | week
  | month
  | year
deriving DecidableEq

namespace TimeUnit

/-- The length of a unit in nanoseconds. -/
def nanos : TimeUnit → Nat
  | nanosecond => 1
  | microsecond => nanosPerMicro
  | millisecond => nanosPerMilli
  | second => nanosPerSecond
  | minute => 60 * nanosPerSecond
  | hour => 3600 * nanosPerSecond
  | day => 86400 * nanosPerSecond
  | week => 604800 * nanosPerSecond
  | month => 2630016 * nanosPerSecond
  | year => 31557600 * nanosPerSecond

/-- The length, in nanoseconds, of the grain in which a number of these units is counted: one
nanosecond below a second, and else one second. -/
def grain : TimeUnit → Nat
  | nanosecond | microsecond | millisecond => 1
  | second | minute | hour | day | week | month | year => nanosPerSecond

/-- The length, in nanoseconds, of the grain in which a fraction of these units is counted, which
must be a whole number of grains.  A nanosecond has no fractions. -/
def fractionGrain? : TimeUnit → Option Nat
  | nanosecond => none
  | microsecond | millisecond | second | minute => some 1
  | hour | day | week | month | year => some nanosPerSecond

/-- The words for a unit. -/
def words : TimeUnit → List String
  | nanosecond => ["nanos", "nsec", "ns"]
  | microsecond => ["usec", "us", "µs"]
  | millisecond => ["millis", "msec", "ms"]
  | second => ["seconds", "second", "secs", "sec", "s"]
  | minute => ["minutes", "minute", "min", "mins", "m"]
  | hour => ["hours", "hour", "hr", "hrs", "h"]
  | day => ["days", "day", "d"]
  | week => ["weeks", "week", "wk", "wks", "w"]
  | month => ["months", "month", "M"]
  | year => ["years", "year", "yr", "yrs", "y"]

/-- All units, shortest first. -/
def all : List TimeUnit :=
  [nanosecond, microsecond, millisecond, second, minute, hour, day, week, month, year]

/-- The unit that a word names. -/
def ofWord? (word : String) : Option TimeUnit := all.find? fun u => word ∈ u.words

end TimeUnit

end WindowedStats
