import WindowedStats.Event
import WindowedStats.Histogram.Basic
import WindowedStats.Queue.SizeThresholds
import WindowedStats.Rate.Scaled
import WindowedStats.Settings.Basic

/-!
# Records of queues

The record of a queue counts its additions, removals and drops, keeps their rates, and tallies the
sizes and waiting times at removal.  Each operation is told the instant at which it happens, and
gives the events that it leaves in the log beside the new record.
-/

namespace WindowedStats

/-- The rates of additions, removals and drops. -/
structure QueueRates where
  add : ScaledRate
  remove : ScaledRate
  drop : ScaledRate

/-- Everything that is kept for a queue. -/
structure QueueRecord where
  added : Nat
  removed : Nat
  dropped : Nat
  /-- The instant that the first addition was told. -/
  firstAddedAt : Option Duration
  rates : Option QueueRates
  sizeAtRemove : Histogram
  waitTime : Option Histogram

/-- The rates that settings ask for. -/
def Settings.newRates (s : Settings) : Except SetupError (Option QueueRates) := do
  if s.trackRates then
    let rate ← ScaledRate.ofWindow s.rateWindow perSecond
    return some ⟨rate, rate, rate⟩
  else return none

/-- The histogram of waiting times that settings ask for. -/
def Settings.newWaitTime (s : Settings) : Except SetupError (Option Histogram) := do
  if s.trackWaitTimes then
    return some (← Histogram.ofMarks s.waitMarks waitLabel waitBucketLabel)
  else return none

/-- The record of a queue with a capacity, before anything happens to it. -/
def Settings.newRecord (s : Settings) (capacity : UInt64) : Except SetupError QueueRecord := do
  let rates ← s.newRates
  let waitTime ← s.newWaitTime
  let sizes ← Histogram.ofMarks (queueSizeThresholds capacity s.capacityCap) sizeLabel ""
  return ⟨0, 0, 0, none, rates, sizes, waitTime⟩

namespace QueueRecord

/-- Whether waiting times are tallied. -/
def tracksWaitTimes (q : QueueRecord) : Bool := q.waitTime.isSome

/-- The events that an update leaves in the log. -/
def lateEvents (late : Option LateUpdate) : List Event := late.toList.map .lateUpdate

/-- Counts an addition in the rates. -/
def rateAdded (q : QueueRecord) (now : Duration) : QueueRecord × List Event :=
  match q.rates with
  | none => (q, [])
  | some r =>
    let (add, late) := r.add.update 1 now.counterMillis
    ({ q with rates := some { r with add := add } }, lateEvents late)

/-- Counts a removal in the rates. -/
def rateRemoved (q : QueueRecord) (now : Duration) : QueueRecord × List Event :=
  match q.rates with
  | none => (q, [])
  | some r =>
    let (remove, late) := r.remove.update 1 now.counterMillis
    ({ q with rates := some { r with remove := remove } }, lateEvents late)

/-- Counts a drop in the rates. -/
def rateDropped (q : QueueRecord) (now : Duration) : QueueRecord × List Event :=
  match q.rates with
  | none => (q, [])
  | some r =>
    let (drop, late) := r.drop.update 1 now.counterMillis
    ({ q with rates := some { r with drop := drop } }, lateEvents late)

/-- Records an addition. -/
def add (q : QueueRecord) (now : Duration) : QueueRecord × List Event :=
  let (q, events) := q.rateAdded now
  ({ q with added := q.added + 1, firstAddedAt := some (q.firstAddedAt.getD now) }, events)

/-- A waiting time in milliseconds; one beyond the highest edge counts as that edge. -/
def waitMark (wait : Duration) : Int := min (wait.millis : Int) highestEdge

/-- Records a removal that leaves the queue at a size, of an item that waited if that is known. -/
def remove (q : QueueRecord) (now : Duration) (size : Nat) (wait : Option Duration) :
    QueueRecord × List Event :=
  let (q, events) := q.rateRemoved now
  let waitTime := match wait with
    | none => q.waitTime
    | some w => q.waitTime.map (·.push (waitMark w))
  ({ q with
      removed := q.removed + 1
      sizeAtRemove := q.sizeAtRemove.push (sizeMark size)
      waitTime := waitTime }, events)

/-- Records a drop. -/
def drop (q : QueueRecord) (now : Duration) : QueueRecord × List Event :=
  let (q, events) := q.rateDropped now
  ({ q with dropped := q.dropped + 1 }, events)

/-- Something that happens to a queue: an addition, a removal that leaves the queue at a size of an
item that waited if that is known, or a drop. -/
inductive Fact where
  | addition
  | removal (size : Nat) (wait : Option Duration)
  | drop
deriving DecidableEq

/-- Records what happens to the queue at the instant `now`. -/
def note (q : QueueRecord) (now : Duration) : Fact → QueueRecord × List Event
  | .addition => q.add now
  | .removal size wait => q.remove now size wait
  | .drop => q.drop now

/-- The rates at a time, with their windows moved forward to it. -/
def readRates (millis : Nat) (r : QueueRates) : QueueRates × Nat × Nat × Nat :=
  let (add, addRate) := r.add.rateAt millis
  let (remove, removeRate) := r.remove.rateAt millis
  let (drop, dropRate) := r.drop.rateAt millis
  (⟨add, remove, drop⟩, addRate, removeRate, dropRate)

/-- The figures at the instant `now`; reading them moves the windows of the rates forward. -/
def report (q : QueueRecord) (now : Duration) : QueueRecord × QueueReport :=
  let read := q.rates.map (readRates now.counterMillis)
  let q := { q with rates := read.map (·.1) }
  (q, {
    added := q.added
    removed := q.removed
    dropped := q.dropped
    addRate := read.map (·.2.1)
    removeRate := read.map (·.2.2.1)
    dropRate := read.map (·.2.2.2)
    duration := q.firstAddedAt.map (now - ·)
    sizeAtRemove := q.sizeAtRemove.summary
    waitTime := q.waitTime.map Histogram.summary })

/-- The exported figures at the instant `now`. -/
def toJson (q : QueueRecord) (now : Duration) : QueueRecord × Json :=
  let (q, r) := q.report now
  (q, r.toJson)

/-- The events that tell the figures of a queue: none if it is idle, and a warning after them if it
drops many items. -/
def reportEvents (queueId : String) (r : QueueReport) : List Event :=
  if r.isIdle then []
  else .queueReported queueId r :: if r.dropsMany then [.manyDrops queueId r] else []

/-- Logs the figures at the instant `now`. -/
def log (q : QueueRecord) (queueId : String) (now : Duration) : QueueRecord × List Event :=
  let (q, r) := q.report now
  (q, reportEvents queueId r)

end QueueRecord

end WindowedStats
