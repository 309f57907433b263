import Std.Data.TreeMap.Lemmas
import WindowedStats.Registry.Basic

/-!
# Observers

An observer follows the items of one queue.  It counts the items in the queue, remembers when they
were added if waiting times are tracked, and turns what happens to an item into a fact for the
shared record of the queue and for a record of its own, if it keeps one.
-/

namespace WindowedStats

/-- What happens to an item of a queue. -/
inductive ItemChange where
  | added
  | removed
  | dropped
deriving DecidableEq

/-- An observer of one queue. -/
structure Observer where
  queueId : String
  /-- The number of the shared record. -/
  shared : Nat
  /-- The record of this observer alone. -/
  own : Option QueueRecord
  /-- The instants at which the items in the queue were added. -/
  addedAt : Option (Std.TreeMap Nat Duration)
  /-- The size of the queue. -/
  size : Nat

namespace Observer

/-- The number of items whose instant of addition is remembered. -/
def trackedItems (o : Observer) : Nat := o.addedAt.elim 0 (·.size)

/-- The instant at which an item was added, if it is remembered. -/
def addedAt? (o : Observer) (key : Nat) : Option Duration := o.addedAt.bind (·[key]?)

/-- Remembers the instant at which an item was added. -/
def remember (o : Observer) (key : Nat) (now : Duration) : Observer :=
  { o with addedAt := o.addedAt.map (·.insert key now) }

/-- Forgets an item. -/
def forget (o : Observer) (key : Nat) : Observer :=
  { o with addedAt := o.addedAt.map (·.erase key) }

/-- How long an item has waited, if its addition is remembered. -/
def wait? (o : Observer) (key : Nat) (now : Duration) : Option Duration :=
  (o.addedAt? key).map (now - ·)

/-- Follows what happens to an item at the instant `now`, and gives the fact to be recorded.  The
size does not go below zero. -/
def follow (o : Observer) (now : Duration) (change : ItemChange) (key : Nat) :
    Observer × QueueRecord.Fact :=
  match change with
  | .added => ({ o.remember key now with size := o.size + 1 }, .addition)
  | .removed =>
    let size := o.size - 1
    ({ o.forget key with size := size }, .removal size (o.wait? key now))
  | .dropped => ({ o.forget key with size := o.size - 1 }, .drop)

/-- Runs an operation on the record of this observer, if it keeps one. -/
def visitOwn {α : Type} (o : Observer) (f : QueueRecord → QueueRecord × α) : Observer × Option α :=
  match o.own with
  | none => (o, none)
  | some q =>
    let (q, a) := f q
    ({ o with own := some q }, some a)

end Observer

end WindowedStats
