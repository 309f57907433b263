import WindowedStats.Registry.Observer

/-!
# Monitors

A monitor is a registry with its observers, numbered in the order in which they were made.  Each
change of an item is told to one observer; the record of that observer and then the shared record of
its queue take note of it.
-/

namespace WindowedStats

/-- A registry with its observers. -/
structure Monitor where
  registry : Registry
  observers : List Observer

namespace Monitor

/-- A monitor without records and observers, if the settings are valid. -/
def ofSettings (s : Settings) : Except SetupError Monitor := do
  return ⟨← Registry.ofSettings s, []⟩

/-- The record that a new observer keeps for itself, if the settings ask for one. -/
def newOwn (s : Settings) (capacity : UInt64) : Except SetupError (Option QueueRecord) := do
  if s.localStats then return some (← s.newRecord capacity) else return none

/-- Makes an observer of the queue with an id, and the shared record of that queue if there is none.
Gives the events and the number of the observer. -/
def observe (m : Monitor) (queueId : String) (capacity : UInt64) :
    Monitor × List Event × Except SetupError Nat :=
  match m.registry.recordFor queueId capacity with
  | (registry, events, .error e) => ({ m with registry := registry }, events, .error e)
  | (registry, events, .ok shared) =>
    match newOwn registry.settings capacity with
    | .error e => ({ m with registry := registry }, events, .error e)
    | .ok own =>
      let addedAt := if registry.settings.trackWaitTimes then some ∅ else none
      (⟨registry, m.observers ++ [⟨queueId, shared, own, addedAt, 0⟩]⟩, events,
        .ok m.observers.length)

/-- Runs an operation on the registry. -/
def visitRegistry {α : Type} (m : Monitor) (f : Registry → Registry × α) : Monitor × α :=
  let (registry, a) := f m.registry
  ({ m with registry := registry }, a)

/-- Runs an operation on the observer with a number, if there is one. -/
def visitObserver {α : Type} (m : Monitor) (i : Nat) (f : Observer → Observer × α) :
    Monitor × Option α :=
  match m.observers[i]? with
  | none => (m, none)
  | some o =>
    let (o, a) := f o
    ({ m with observers := m.observers.set i o }, some a)

/-- Runs an operation on the shared record of the observer with a number. -/
def visitShared {α : Type} (m : Monitor) (i : Nat) (f : QueueRecord → QueueRecord × α) :
    Monitor × Option α :=
  match m.observers[i]? with
  | none => (m, none)
  | some o => m.visitRegistry (·.visit o.shared fun _ => f)

/-- Runs an operation on the record that the observer with a number keeps for itself. -/
def visitOwn {α : Type} (m : Monitor) (i : Nat) (f : QueueRecord → QueueRecord × α) :
    Monitor × Option α :=
  let (m, a) := m.visitObserver i (·.visitOwn f)
  (m, a.join)

/-- Tells an observer what happens to an item at the instant `now`; also gives the events. -/
def change (m : Monitor) (i : Nat) (now : Duration) (c : ItemChange) (key : Nat) :
    Monitor × List Event :=
  match m.visitObserver i (·.follow now c key) with
  | (m, none) => (m, [])
  | (m, some fact) =>
    let (m, ownEvents) := m.visitOwn i (·.note now fact)
    let (m, sharedEvents) := m.visitShared i (·.note now fact)
    (m, ownEvents.getD [] ++ sharedEvents.getD [])

end Monitor

end WindowedStats
