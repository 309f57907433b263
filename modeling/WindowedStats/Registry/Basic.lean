import WindowedStats.Queue.Record

/-!
# Registries

A registry keeps one shared record per queue id.  A record is created when it is first asked for,
with the capacity that is then given, and stays; its place in the order of creation is its number.
Listings are in ascending order of ids.
-/

namespace WindowedStats

/-- The shared records of queues, in order of creation, with the settings for new ones. -/
structure Registry where
  settings : Settings
  records : List (String × QueueRecord)

namespace Registry

/-- A registry without records, if the settings are valid. -/
def ofSettings (s : Settings) : Except SetupError Registry := do
  s.validate
  return ⟨s, []⟩

/-- The number of the record for a queue id. -/
def find? (r : Registry) (queueId : String) : Option Nat :=
  r.records.findIdx? fun entry => entry.1 = queueId

/-- The queue ids, in ascending order. -/
def ids (r : Registry) : List String := (r.records.map (·.1)).mergeSort fun a b => a ≤ b

/-- The number of records. -/
def size (r : Registry) : Nat := r.records.length

/-- Whether there are no records. -/
def isEmpty (r : Registry) : Bool := r.records.isEmpty

/-- The number of the record for a queue id, which is created if there is none.  Also gives the
events; if the record cannot be created, the registry stays as it is. -/
def recordFor (r : Registry) (queueId : String) (capacity : UInt64) :
    Registry × List Event × Except SetupError Nat :=
  match r.find? queueId with
  | some i => (r, [], .ok i)
  | none =>
    match r.settings.newRecord capacity with
    | .error e => (r, [], .error e)
    | .ok q =>
      ({ r with records := r.records ++ [(queueId, q)] }, [.recordCreated queueId capacity],
        .ok r.records.length)

/-- Runs an operation on the record with a number, if there is one. -/
def visit {α : Type} (r : Registry) (i : Nat) (f : String → QueueRecord → QueueRecord × α) :
    Registry × Option α :=
  match r.records[i]? with
  | none => (r, none)
  | some (queueId, q) =>
    let (q, a) := f queueId q
    ({ r with records := r.records.set i (queueId, q) }, some a)

/-- Runs an operation on every record, in ascending order of ids; also gives the ids with the
results. -/
def visitAll {α : Type} (r : Registry) (f : String → QueueRecord → QueueRecord × α) :
    Registry × List (String × α) :=
  r.ids.foldl (fun (r, done) queueId =>
    match r.find? queueId with
    | none => (r, done)
    | some i =>
      let (r, a) := r.visit i f
      (r, done ++ (a.map (queueId, ·)).toList)) (r, [])

/-- The exported figures of all queues at the instant `now`. -/
def toJson (r : Registry) (now : Duration) : Registry × Json :=
  let (r, figures) := r.visitAll fun _ q => q.toJson now
  (r, .obj (Json.Members.ofList figures))

/-- Logs the figures of all queues at the instant `now`. -/
def log (r : Registry) (now : Duration) : Registry × List Event :=
  let (r, events) := r.visitAll fun queueId q => q.log queueId now
  (r, events.flatMap (·.2))

end Registry

end WindowedStats
