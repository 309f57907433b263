import WindowedStats.Clock
import WindowedStats.Proofs.MonitorRuns

/-!
# Sessions

A session is a monitor with the clock that all of it reads.  Its operations are what a client can
do: let time pass, look up a record, make an observer, tell an observer of an item, and read the
figures, of one record or of all of them.  The outcome of an operation is what it shows to the
client and the events that it leaves in the log; nothing else of a session can be seen.
-/

namespace WindowedStats

/-- What an operation shows to the client. -/
inductive Shown where
  | nothing
  | number (n : Except SetupError Nat)
  /-- The size of the queue, and the number of items whose addition is remembered. -/
  | sizes (size tracked : Nat)
  | report (r : QueueReport)
  | json (j : Json)

structure Outcome where
  shown : Shown
  events : List Event

namespace Outcome

/-- Nothing is shown and nothing is logged. -/
def silent : Outcome := ⟨.nothing, []⟩

/-- The outcome of asking for a record or an observer. -/
def ofSetup (made : List Event × Except SetupError Nat) : Outcome := ⟨.number made.2, made.1⟩

/-- What an observer counts of its queue. -/
def ofSizes (o : Observer) : Outcome := ⟨.sizes o.size o.trackedItems, []⟩

end Outcome

namespace QueueRecord

/-- How the figures of a record are read. -/
inductive Reading where
  | report
  | json
  | log (queueId : String)

def read (q : QueueRecord) (now : Duration) : Reading → QueueRecord × Outcome
  | .report => ((q.report now).1, ⟨.report (q.report now).2, []⟩)
  | .json => ((q.toJson now).1, ⟨.json (q.toJson now).2, []⟩)
  | .log queueId => ((q.log queueId now).1, ⟨.nothing, (q.log queueId now).2⟩)

end QueueRecord

structure Session where
  clock : Clock
  monitor : Monitor

namespace Session

inductive Op where
  | elapse (d : Duration)
  | lookUp (queueId : String) (capacity : UInt64)
  | observe (queueId : String) (capacity : UInt64)
  | change (i : Nat) (c : ItemChange) (key : Nat)
  | sizes (i : Nat)
  | readShared (record : Nat) (reading : QueueRecord.Reading)
  | readOwn (i : Nat) (reading : QueueRecord.Reading)
  | readAll
  | logAll

namespace Op

/-- Whether an operation only reads. -/
def isRead : Op → Bool
  | sizes _ | readShared _ _ | readOwn _ _ | readAll | logAll => true
  | _ => false

end Op

/-- The session with another monitor, and an outcome. -/
def turn (s : Session) (m : Monitor) (outcome : Outcome) : Session × Outcome :=
  ({ s with monitor := m }, outcome)

def perform (s : Session) : Op → Session × Outcome
  | .elapse d => ({ s with clock := s.clock.elapse d }, .silent)
  | .lookUp queueId capacity =>
    let (registry, found) := s.monitor.registry.recordFor queueId capacity
    s.turn { s.monitor with registry := registry } (.ofSetup found)
  | .observe queueId capacity =>
    let (m, made) := s.monitor.observe queueId capacity
    s.turn m (.ofSetup made)
  | .change i c key =>
    let (m, events) := s.monitor.change i s.clock.now c key
    s.turn m ⟨.nothing, events⟩
  | .sizes i => (s, (s.monitor.observers[i]?.map .ofSizes).getD .silent)
  | .readShared record reading =>
    let (m, outcome) :=
      s.monitor.visitRegistry (·.visit record fun _ q => q.read s.clock.now reading)
    s.turn m (outcome.getD .silent)
  | .readOwn i reading =>
    let (m, outcome) := s.monitor.visitOwn i (·.read s.clock.now reading)
    s.turn m (outcome.getD .silent)
  | .readAll =>
    let (m, j) := s.monitor.visitRegistry (·.toJson s.clock.now)
    s.turn m ⟨.json j, []⟩
  | .logAll =>
    let (m, events) := s.monitor.visitRegistry (·.log s.clock.now)
    s.turn m ⟨.nothing, events⟩

/-- The outcomes of some operations, one after the other. -/
def outcomes (s : Session) : List Op → List Outcome
  | [] => []
  | op :: rest => (s.perform op).2 :: (s.perform op).1.outcomes rest

end Session

end WindowedStats
