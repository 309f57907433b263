import Mathlib.Data.Finset.Card
import WindowedStats.Registry.Observer

/-!
# What an observer is told of items

The log of an observer lists what it was told of items, oldest first.  An item is in flight if the
latest entry about its key is an addition, and it has been since the instant of that entry.  This is
read off the log alone and says something of every log, also of one with a key added twice or
removed unknown.

In a well-formed log a key is added only while it is not in flight, and removed or dropped only
while it is.  There the additions are as many as the items in flight and the removals and drops
together (`WellFormed.added_eq`), and the size, which does not go below zero, is the number of items
in flight (`WellFormed.size_eq`).
-/

namespace WindowedStats

/-- A change of an item, with the instant at which an observer is told of it. -/
structure Told where
  now : Duration
  change : ItemChange
  key : Nat

/-- What an observer was told, oldest first. -/
abbrev ItemLog := List Told

namespace ItemLog

/-- The instant since which an item is in flight, if it is. -/
def inFlightSince (log : ItemLog) (key : Nat) : Option Duration :=
  (log.reverse.find? fun e => e.key = key).bind fun e =>
    if e.change = .added then some e.now else none

/-- The keys in flight. -/
def inFlight (log : ItemLog) : Finset Nat :=
  (log.map (·.key)).toFinset.filter fun key => (log.inFlightSince key).isSome

/-- The size of the queue, if it does not go below zero. -/
def size (log : ItemLog) : Nat :=
  log.foldl (fun n e => if e.change = .added then n + 1 else n - 1) 0

/-- The number of changes of one kind. -/
def counted (log : ItemLog) (c : ItemChange) : Nat := log.countP fun e => e.change = c

/-- Whether an entry may follow: an addition while the key is not in flight, or else a removal or
drop while it is. -/
def Allows (log : ItemLog) (e : Told) : Prop :=
  e.change = .added ↔ log.inFlightSince e.key = none

instance (log : ItemLog) (e : Told) : Decidable (log.Allows e) :=
  inferInstanceAs (Decidable (_ ↔ _))

/-- Whether each entry may follow those before it. -/
def WellFormed (log : ItemLog) : Prop :=
  ∀ n, (h : n < log.length) → ItemLog.Allows (log.take n) log[n]

instance (log : ItemLog) : Decidable log.WellFormed :=
  inferInstanceAs (Decidable (∀ n, (h : n < log.length) → ItemLog.Allows (log.take n) log[n]))

/-- The fact that a change amounts to after a log: a removal leaves one item less, and its item has
waited since it was added, if it is in flight. -/
def fact (log : ItemLog) (now : Duration) (c : ItemChange) (key : Nat) : QueueRecord.Fact :=
  match c with
  | .added => .addition
  | .removed => .removal (log.size - 1) ((log.inFlightSince key).map (now - ·))
  | .dropped => .drop

/-! ## One more entry -/

variable {log : ItemLog} {e : Told}

theorem inFlightSince_append (log : ItemLog) (e : Told) (key : Nat) :
    ItemLog.inFlightSince (log ++ [e]) key =
      if e.key = key then if e.change = .added then some e.now else none
      else log.inFlightSince key := by
  simp only [inFlightSince, List.reverse_append, List.reverse_singleton, List.singleton_append,
    List.find?_cons]
  by_cases hkey : e.key = key
  · simp [hkey]
  · simp [hkey]

theorem mem_inFlight {key : Nat} : key ∈ log.inFlight ↔ (log.inFlightSince key).isSome := by
  rw [inFlight, Finset.mem_filter, List.mem_toFinset, and_iff_right_iff_imp]
  intro h
  obtain ⟨now, hnow⟩ := Option.isSome_iff_exists.mp h
  obtain ⟨e, he, -⟩ := Option.bind_eq_some_iff.mp hnow
  have hkey := List.find?_some he
  exact List.mem_map.mpr ⟨e, List.mem_reverse.mp (List.mem_of_find?_eq_some he),
    of_decide_eq_true hkey⟩

theorem inFlight_append_added (h : e.change = .added) :
    ItemLog.inFlight (log ++ [e]) = insert e.key log.inFlight := by
  ext key
  rw [mem_inFlight, inFlightSince_append, Finset.mem_insert, mem_inFlight, if_pos h]
  by_cases hkey : e.key = key
  · simp [hkey]
  · simp [hkey, Ne.symm hkey]

theorem inFlight_append_left (h : e.change ≠ .added) :
    ItemLog.inFlight (log ++ [e]) = log.inFlight.erase e.key := by
  ext key
  rw [mem_inFlight, inFlightSince_append, Finset.mem_erase, mem_inFlight, if_neg h]
  by_cases hkey : e.key = key
  · simp [hkey]
  · simp [hkey, Ne.symm hkey]

theorem size_append (log : ItemLog) (e : Told) :
    ItemLog.size (log ++ [e]) = if e.change = .added then log.size + 1 else log.size - 1 := by
  rw [size, List.foldl_append]
  rfl

theorem counted_append (log : ItemLog) (e : Told) (c : ItemChange) :
    ItemLog.counted (log ++ [e]) c = log.counted c + if e.change = c then 1 else 0 := by
  rw [counted, List.countP_append, List.countP_singleton]
  simp only [counted, decide_eq_true_eq]

theorem wellFormed_append_iff :
    ItemLog.WellFormed (log ++ [e]) ↔ log.WellFormed ∧ log.Allows e := by
  constructor
  · intro h
    constructor
    · intro n hn
      have := h n (by simp; omega)
      rwa [List.take_append_of_le_length hn.le, List.getElem_append_left hn] at this
    · have := h log.length (by simp)
      rwa [List.take_left, List.getElem_concat_length rfl] at this
  · rintro ⟨hlog, he⟩ n hn
    rcases Nat.lt_succ_iff_lt_or_eq.mp (by simpa using hn) with hlt | rfl
    · rw [List.take_append_of_le_length hlt.le, List.getElem_append_left hlt]
      exact hlog n hlt
    · rwa [List.take_left, List.getElem_concat_length rfl]

/-! ## Well-formed logs -/

theorem card_append_added (h : e.change = .added) (hnone : log.inFlightSince e.key = none) :
    (ItemLog.inFlight (log ++ [e])).card = log.inFlight.card + 1 := by
  rw [inFlight_append_added h, Finset.card_insert_of_notMem]
  simp [mem_inFlight, hnone]

theorem card_append_left (h : e.change ≠ .added) (hsome : log.inFlightSince e.key ≠ none) :
    (ItemLog.inFlight (log ++ [e])).card + 1 = log.inFlight.card := by
  rw [inFlight_append_left h]
  exact Finset.card_erase_add_one (mem_inFlight.mpr (Option.isSome_iff_ne_none.mpr hsome))

theorem WellFormed.size_eq (h : log.WellFormed) : log.size = log.inFlight.card := by
  induction log using List.reverseRecOn with
  | nil => rfl
  | append_singleton log e ih =>
      obtain ⟨hlog, he⟩ := wellFormed_append_iff.mp h
      rw [size_append, ih hlog]
      split
      · next hadded => rw [card_append_added hadded (he.mp hadded)]
      · next hleft => rw [← card_append_left hleft (mt he.mpr hleft), Nat.add_sub_cancel]

theorem WellFormed.added_eq (h : log.WellFormed) :
    log.counted .added = log.inFlight.card + log.counted .removed + log.counted .dropped := by
  induction log using List.reverseRecOn with
  | nil => rfl
  | append_singleton log e ih =>
      obtain ⟨hlog, he⟩ := wellFormed_append_iff.mp h
      have hbefore := ih hlog
      simp only [counted_append]
      by_cases hadded : e.change = .added
      · have hcard := card_append_added hadded (he.mp hadded)
        simp [hadded]
        omega
      · have hcard := card_append_left hadded (mt he.mpr hadded)
        cases hc : e.change with
        | added => exact absurd hc hadded
        | removed => simp; omega
        | dropped => simp; omega

/-! ## Instants kept in a map -/

/-- A map that tells since when each key is in flight has as many entries as there are keys in
flight. -/
theorem size_eq_card {times : Std.TreeMap Nat Duration}
    (h : ∀ key, times[key]? = log.inFlightSince key) : times.size = log.inFlight.card := by
  have hkeys : times.keys.toFinset = log.inFlight := by
    ext key
    rw [List.mem_toFinset, Std.TreeMap.mem_keys, Std.TreeMap.mem_iff_isSome_getElem?, h,
      mem_inFlight]
  rw [← hkeys, List.toFinset_card_of_nodup Std.TreeMap.nodup_keys, Std.TreeMap.length_keys]

end ItemLog

end WindowedStats
