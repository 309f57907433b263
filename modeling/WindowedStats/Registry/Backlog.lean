import WindowedStats.Registry.Observer

/-!
# Backlogs

A backlog is a bounded queue of items under observation: each item that enters or leaves it is a
change that an observer is told.  When an item is pushed onto a full backlog, the oldest item is
dropped to make room.
-/

namespace WindowedStats

/-- The keys of the items in a queue, oldest first. -/
structure Backlog where
  keys : List Nat

/-- What happens to an item, with its key. -/
abbrev KeyedChange := ItemChange × Nat

namespace Backlog

/-- The backlog without items. -/
def empty : Backlog := ⟨[]⟩

/-- Takes the oldest item out, if there is one, and gives this as a change. -/
def takeOldest (b : Backlog) (change : ItemChange) : Backlog × List KeyedChange :=
  match b.keys with
  | [] => (b, [])
  | key :: rest => (⟨rest⟩, [(change, key)])

/-- Appends an item to a backlog with a capacity. -/
def push (b : Backlog) (capacity key : Nat) : Backlog × List KeyedChange :=
  let (b, dropped) := if b.keys.length = capacity then b.takeOldest .dropped else (b, [])
  (⟨b.keys ++ [key]⟩, dropped ++ [(.added, key)])

/-- Takes the oldest item out. -/
def pop (b : Backlog) : Backlog × List KeyedChange := b.takeOldest .removed

end Backlog

end WindowedStats
