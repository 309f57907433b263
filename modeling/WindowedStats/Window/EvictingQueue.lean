/-!
# Evicting queues

A queue of entries that loses its oldest entries as long as they may go.  Which entries may go is a
property that every eviction is given anew.  `evicted_append_entries` says that eviction only cuts
the queue in two.

The property may also change while an eviction is under way, say because it depends on a clock.
`evictEach` looks at each entry with the property that holds at that moment, and is `evict` if the
property stays the same (`evictEach_const`).
-/

namespace WindowedStats

/-- Entries in order of insertion, oldest first. -/
structure EvictingQueue (α : Type) where
  entries : List α
deriving DecidableEq

namespace EvictingQueue

variable {α : Type}

/-- The queue without entries. -/
def empty : EvictingQueue α := ⟨[]⟩

/-- The number of entries. -/
def size (q : EvictingQueue α) : Nat := q.entries.length

/-- Whether there are no entries. -/
def isEmpty (q : EvictingQueue α) : Bool := q.entries.isEmpty

/-- Removes the oldest entries as long as they may go; also gives them, oldest first. -/
def evict (mayGo : α → Bool) (q : EvictingQueue α) : EvictingQueue α × List α :=
  (⟨q.entries.dropWhile mayGo⟩, q.entries.takeWhile mayGo)

/-- Appends an entry and then evicts. -/
def push (mayGo : α → Bool) (a : α) (q : EvictingQueue α) : EvictingQueue α × List α :=
  evict mayGo ⟨q.entries ++ [a]⟩

/-- Entries cut at the first that may not go; `mayGo n` says whether an entry with `n` others in
front of it may go. -/
def cutEach (mayGo : Nat → α → Bool) : List α → List α × List α
  | [] => ([], [])
  | a :: rest =>
    if mayGo 0 a then
      let (gone, kept) := cutEach (fun n => mayGo (n + 1)) rest
      (a :: gone, kept)
    else ([], a :: rest)

/-- Removes the oldest entries as long as they may go, where the rule may change with the number of
entries that have gone; also gives them, oldest first. -/
def evictEach (mayGo : Nat → α → Bool) (q : EvictingQueue α) : EvictingQueue α × List α :=
  (⟨(cutEach mayGo q.entries).2⟩, (cutEach mayGo q.entries).1)

/-- Appends an entry and then evicts by a rule that may change. -/
def pushEach (mayGo : Nat → α → Bool) (a : α) (q : EvictingQueue α) : EvictingQueue α × List α :=
  evictEach mayGo ⟨q.entries ++ [a]⟩

/-- Removes all entries; none of them counts as evicted. -/
def clear (_ : EvictingQueue α) : EvictingQueue α := empty

/-- The text of a queue, given that of its entries. -/
def describe (entryText : α → String) (q : EvictingQueue α) : String :=
  "EvictingQueue \x7b entries: [" ++ ", ".intercalate (q.entries.map entryText) ++ "], .. \x7d"

/-! ## What eviction does to the entries -/

@[simp] theorem entries_evict (mayGo : α → Bool) (q : EvictingQueue α) :
    (q.evict mayGo).1.entries = q.entries.dropWhile mayGo := rfl

@[simp] theorem entries_push (mayGo : α → Bool) (a : α) (q : EvictingQueue α) :
    (q.push mayGo a).1.entries = (q.entries ++ [a]).dropWhile mayGo := rfl

@[simp] theorem entries_clear (q : EvictingQueue α) : q.clear.entries = [] := rfl

theorem evicted_append_entries (mayGo : α → Bool) (q : EvictingQueue α) :
    (q.evict mayGo).2 ++ (q.evict mayGo).1.entries = q.entries :=
  List.takeWhile_append_dropWhile

theorem mayGo_of_mem_evicted {mayGo : α → Bool} {q : EvictingQueue α} {a : α}
    (h : a ∈ (q.evict mayGo).2) : mayGo a = true :=
  List.all_eq_true.1 List.all_takeWhile a h

/-! ## Rules that change -/

theorem cutEach_append (mayGo : Nat → α → Bool) (entries : List α) :
    (cutEach mayGo entries).1 ++ (cutEach mayGo entries).2 = entries := by
  induction entries generalizing mayGo with
  | nil => rfl
  | cons a rest ih =>
      rw [cutEach]
      split
      · exact congrArg (a :: ·) (ih _)
      · rfl

theorem cutEach_const (mayGo : α → Bool) (entries : List α) :
    cutEach (fun _ => mayGo) entries = (entries.takeWhile mayGo, entries.dropWhile mayGo) := by
  induction entries with
  | nil => rfl
  | cons a rest ih =>
      rw [cutEach, ih, List.takeWhile_cons, List.dropWhile_cons]
      split <;> rfl

/-- A new entry that may not go when its turn comes stays, and is not in the way of the others. -/
theorem cutEach_concat {mayGo : Nat → α → Bool} {entries : List α} {a : α}
    (h : mayGo entries.length a = false) :
    cutEach mayGo (entries ++ [a]) =
      ((cutEach mayGo entries).1, (cutEach mayGo entries).2 ++ [a]) := by
  induction entries generalizing mayGo with
  | nil => exact if_neg (by simp [show mayGo 0 a = false from h])
  | cons b rest ih =>
      rw [List.cons_append, cutEach, cutEach, ih h]
      split <;> rfl

theorem evictEach_const (mayGo : α → Bool) (q : EvictingQueue α) :
    q.evictEach (fun _ => mayGo) = q.evict mayGo := by
  rw [evictEach, cutEach_const]
  rfl

theorem pushEach_const (mayGo : α → Bool) (a : α) (q : EvictingQueue α) :
    q.pushEach (fun _ => mayGo) a = q.push mayGo a := evictEach_const mayGo _

end EvictingQueue

end WindowedStats
