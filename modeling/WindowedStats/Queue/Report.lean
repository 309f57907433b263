import WindowedStats.Duration.Basic
import WindowedStats.Histogram.Summary

/-!
# Reports

What the record of a queue shows at one moment, the figures derived from it, and its export.
-/

namespace WindowedStats

/-- What is appended to the keys of the figures of queue sizes. -/
def sizeLabel : String := "_queue_size_at_remove"

/-- What is appended to the keys of the figures of waiting times. -/
def waitLabel : String := "_queue_wait_time_ms"

/-- What is appended to the intervals of waiting times. -/
def waitBucketLabel : String := " ms"

/-- The figures of a queue at one moment. -/
structure QueueReport where
  added : Nat
  removed : Nat
  dropped : Nat
  addRate : Option Nat
  removeRate : Option Nat
  dropRate : Option Nat
  /-- The time since the first addition. -/
  duration : Option Duration
  /-- The sizes of the queue right after each removal. -/
  sizeAtRemove : Summary
  /-- The waiting times of the removed items, in milliseconds. -/
  waitTime : Option Summary
deriving BEq

namespace QueueReport

/-- The time since the first addition, in seconds. -/
def durationSeconds (r : QueueReport) : Option Float := r.duration.map Duration.toSeconds

/-- The mean number of removals per second since the first addition, if any time has passed. -/
def averageRemoveRate (r : QueueReport) : Option Float :=
  (r.durationSeconds.filter (0.0 < ·)).map fun seconds => Float.ofNat r.removed / seconds

/-- The number of dropped items per added item, zero if none was added. -/
def dropRatio (r : QueueReport) : Float :=
  if r.added = 0 then 0.0 else Float.ofNat r.dropped / Float.ofNat r.added

/-- The drop ratio above which a queue is worth a warning. -/
def highDropRatio : Float := 0.05

/-- Whether the drop ratio is worth a warning. -/
def dropsMany (r : QueueReport) : Bool := highDropRatio < r.dropRatio

/-- Whether there is nothing to tell: nothing was added and nothing was dropped. -/
def isIdle (r : QueueReport) : Bool := r.added = 0 && r.dropped = 0

/-- The exported report. -/
def toJson (r : QueueReport) : Json :=
  .obj <| Json.Members.ofList <|
    [("added", .ofNat r.added), ("removed", .ofNat r.removed), ("dropped", .ofNat r.dropped)] ++
    Json.optionalMember "add_rate" .ofNat r.addRate ++
    Json.optionalMember "remove_rate" .ofNat r.removeRate ++
    Json.optionalMember "drop_rate" .ofNat r.dropRate ++
    Json.optionalMember "duration_s" .ofFloat r.durationSeconds ++
    Json.optionalMember "average_remove_rate_pps"
      (fun _ => .ofOption .ofFloat r.averageRemoveRate) r.duration ++
    [("queue_size_at_remove", r.sizeAtRemove.toJson .separate sizeLabel "")] ++
    Json.optionalMember "queue_wait_time" (·.toJson .separate waitLabel waitBucketLabel) r.waitTime

end QueueReport

end WindowedStats
