import WindowedStats.Window.EvictingQueue

/-!
# Tagged values

An evicting queue of values that are numbered in the order in which they arrive, and the rules by
which they may go.
-/

namespace WindowedStats

/-- A value with its number. -/
structure Tagged where
  value : Int
  tag : Nat
deriving DecidableEq

/-- When a tagged value may go. -/
inductive EvictionRule where
  /-- The value is less than the limit. -/
  | valueBelow
  /-- The number is less than the limit. -/
  | tagBelow
  /-- The value is odd. -/
  | odd
  | always
  | never
deriving DecidableEq

/-- Whether a tagged value may go under a limit. -/
def EvictionRule.mayGo (rule : EvictionRule) (limit : Int) (t : Tagged) : Bool :=
  match rule with
  | .valueBelow => t.value < limit
  | .tagBelow => (t.tag : Int) < limit
  | .odd => t.value % 2 ≠ 0
  | .always => true
  | .never => false

/-- An evicting queue of tagged values; `nextTag` numbers the next arrival. -/
structure TaggedQueue where
  rule : EvictionRule
  limit : Int
  nextTag : Nat
  queue : EvictingQueue Tagged

namespace TaggedQueue

/-- A queue without values. -/
def empty (rule : EvictionRule) (limit : Int) : TaggedQueue := ⟨rule, limit, 0, .empty⟩

/-- Evicts; also gives the values that went. -/
def evict (t : TaggedQueue) : TaggedQueue × List Int :=
  let (queue, gone) := t.queue.evict (t.rule.mayGo t.limit)
  ({ t with queue := queue }, gone.map Tagged.value)

/-- Numbers a value, appends it and evicts; also gives the values that went. -/
def push (t : TaggedQueue) (value : Int) : TaggedQueue × List Int :=
  let (queue, gone) := t.queue.push (t.rule.mayGo t.limit) ⟨value, t.nextTag⟩
  ({ t with queue := queue, nextTag := t.nextTag + 1 }, gone.map Tagged.value)

/-- Removes all values. -/
def clear (t : TaggedQueue) : TaggedQueue := { t with queue := t.queue.clear }

/-- Changes the limit; this evicts nothing. -/
def setLimit (t : TaggedQueue) (limit : Int) : TaggedQueue := { t with limit := limit }

/-- The text of a tagged value. -/
def entryText (t : Tagged) : String :=
  "Tagged \x7b value: " ++ toString t.value ++ ", tag: " ++ toString t.tag ++ " \x7d"

/-- The text of the queue. -/
def describe (t : TaggedQueue) : String := t.queue.describe entryText

end TaggedQueue

end WindowedStats
