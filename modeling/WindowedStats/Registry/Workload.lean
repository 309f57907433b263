import WindowedStats.Registry.Backlog
import WindowedStats.Registry.Monitor

/-!
# Workloads

A workload is a monitor together with the queues that its observers watch: one backlog per observer,
and fresh keys for the items.
-/

namespace WindowedStats

/-- A monitor, the next fresh key, and the backlog of each observer. -/
structure Workload where
  monitor : Monitor
  nextKey : Nat
  backlogs : List Backlog

namespace Workload

/-- A workload without queues, if the settings are valid. -/
def ofSettings (s : Settings) : Except SetupError Workload := do
  return ⟨← Monitor.ofSettings s, 0, []⟩

/-- Gives a key that no item has had. -/
def freshKey (w : Workload) : Workload × Nat := ({ w with nextKey := w.nextKey + 1 }, w.nextKey)

/-- Makes an observer with an empty backlog. -/
def observe (w : Workload) (queueId : String) (capacity : UInt64) :
    Workload × List Event × Except SetupError Nat :=
  match w.monitor.observe queueId capacity with
  | (m, events, .error e) => ({ w with monitor := m }, events, .error e)
  | (m, events, .ok i) =>
    ({ w with monitor := m, backlogs := w.backlogs ++ [.empty] }, events, .ok i)

/-- Tells an observer several changes at the instant `now`, in order; also gives the events. -/
def change (w : Workload) (i : Nat) (now : Duration) (changes : List KeyedChange) :
    Workload × List Event :=
  let (m, events) := changes.foldl (fun (m, events) (c, key) =>
    let (m, more) := m.change i now c key
    (m, events ++ more)) (w.monitor, [])
  ({ w with monitor := m }, events)

/-- The backlog of an observer. -/
def backlog (w : Workload) (i : Nat) : Backlog := w.backlogs[i]?.getD .empty

/-- Pushes a fresh item onto the backlog of an observer. -/
def push (w : Workload) (i capacity : Nat) (now : Duration) : Workload × List Event :=
  let (w, key) := w.freshKey
  let (b, changes) := (w.backlog i).push capacity key
  { w with backlogs := w.backlogs.set i b }.change i now changes

/-- Pops the oldest item off the backlog of an observer. -/
def pop (w : Workload) (i : Nat) (now : Duration) : Workload × List Event :=
  let (b, changes) := (w.backlog i).pop
  { w with backlogs := w.backlogs.set i b }.change i now changes

/-- Runs an operation on the monitor. -/
def visitMonitor {α : Type} (w : Workload) (f : Monitor → Monitor × α) : Workload × α :=
  let (m, a) := f w.monitor
  ({ w with monitor := m }, a)

end Workload

end WindowedStats
