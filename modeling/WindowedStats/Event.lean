import WindowedStats.Queue.Report
import WindowedStats.Rate.Tracker

/-!
# Events

What an operation leaves in the log: its cause, and for each cause a level, a message and the fields
that tell more.  A field without a value is left out.
-/

namespace WindowedStats

/-- How much attention an event deserves. -/
inductive Level where
  | trace
  | debug
  | info
  | warn
deriving DecidableEq

/-- The name of a level. -/
def Level.name : Level → String
  | trace => "TRACE"
  | debug => "DEBUG"
  | info => "INFO"
  | warn => "WARN"

/-- Something worth logging. -/
inductive Event where
  /-- An update was too late for its rate window. -/
  | lateUpdate (update : LateUpdate)
  /-- The shared record of a queue was created. -/
  | recordCreated (queueId : String) (capacity : UInt64)
  /-- The figures of a queue. -/
  | queueReported (queueId : String) (report : QueueReport)
  /-- A queue drops many items. -/
  | manyDrops (queueId : String) (report : QueueReport)

namespace Event

/-- The level of an event. -/
def level : Event → Level
  | lateUpdate _ => .trace
  | recordCreated _ _ => .debug
  | queueReported _ _ => .info
  | manyDrops _ _ => .warn

/-- The message of an event. -/
def message : Event → String
  | lateUpdate _ => "Ignoring update older than the rate window"
  | recordCreated _ _ => "Created shared queue statistics"
  | queueReported _ _ => "Queue statistics snapshot"
  | manyDrops _ _ => "High queue drop ratio detected"

/-- The fields of an event. -/
def fields : Event → List (String × Json)
  | lateUpdate u => [("now_ms", .ofNat u.millis), ("count", .ofNat u.count)]
  | recordCreated queueId capacity =>
    [("queue_id", .str queueId), ("capacity", .ofNat capacity.toNat)]
  | queueReported queueId r =>
    [("queue_id", .str queueId), ("added", .ofNat r.added), ("removed", .ofNat r.removed),
      ("dropped", .ofNat r.dropped)] ++
    Json.optionalMember "add_rate" .ofNat r.addRate ++
    Json.optionalMember "remove_rate" .ofNat r.removeRate ++
    Json.optionalMember "drop_rate" .ofNat r.dropRate ++
    Json.optionalMember "duration_s" .float r.durationSeconds ++
    Json.optionalMember "size_at_remove_p99" .int r.sizeAtRemove.distribution.p99? ++
    Json.optionalMember "wait_time_ms_p99" .int (r.waitTime.bind (·.distribution.p99?))
  | manyDrops queueId r =>
    [("queue_id", .str queueId), ("drop_ratio", .float r.dropRatio), ("dropped", .ofNat r.dropped),
      ("added", .ofNat r.added)]

end Event

end WindowedStats
