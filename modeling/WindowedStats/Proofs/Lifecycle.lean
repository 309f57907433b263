import WindowedStats.Proofs.ItemLog
import WindowedStats.Proofs.MonitorRuns

/-!
# The bookkeeping of observers

During a run of a monitor an observer is told of items (`toldTo`).  What it keeps is a function of
that log alone, whatever is done to other observers or to the records: since when each key is in
flight, and the size (`Observer.Follows`).  Every operation preserves this (`Tracks.perform`), so
every run does (`Tracks.after`).

`exact_after_run` draws the conclusion for well-formed logs: the size, the number of remembered
items and the balance of additions, removals and drops are the number of items in flight, and both
records of the observer are told exactly what the log says.
-/

namespace WindowedStats

theorem Duration.add_sub_of_le {since now : Duration} (h : since ≤ now) :
    since + (now - since) = now := by
  have hle : since.nanos ≤ now.nanos := h
  have hmax := now.nanos_le
  ext
  rw [nanos_add, nanos_sub]
  omega

theorem Duration.sub_eq_zero_of_lt {since now : Duration} (h : now < since) :
    now - since = zero := by
  have hlt : now.nanos < since.nanos := h
  ext
  rw [nanos_sub, nanos_zero]
  omega

/-! ## Samples of waiting times -/

namespace QueueRecord

/-- The number of waiting times recorded so far, tallied or discarded. -/
def waitSamples (q : QueueRecord) : Option Nat := q.waitTime.map fun h => h.accepted + h.discarded

/-- The number of waiting times that a fact brings. -/
def Fact.samples : Fact → Nat
  | .addition => 0
  | .removal _ wait => if wait.isSome then 1 else 0
  | .drop => 0

theorem samples_push (h : Histogram) (v : Int) :
    (h.push v).accepted + (h.push v).discarded = h.accepted + h.discarded + 1 := by
  cases hv : h.tally.count? v with
  | none =>
      rw [Histogram.push, Histogram.record_of_not_contains hv]
      rfl
  | some tally =>
      obtain ⟨-, -, haccepted, hdiscarded⟩ := Histogram.record_of_contains hv
      omega

theorem samples_withWait (h : Histogram) (fact : Fact) :
    (withWait h fact.wait?).accepted + (withWait h fact.wait?).discarded =
      h.accepted + h.discarded + fact.samples := by
  cases fact with
  | addition => rfl
  | removal size wait =>
      cases wait with
      | none => rfl
      | some w => exact samples_push h (waitMark w)
  | drop => rfl

theorem waitSamples_note (q : QueueRecord) (now : Duration) (fact : Fact) :
    (q.note now fact).1.waitSamples = q.waitSamples.map (· + fact.samples) := by
  rw [waitSamples, waitTime_note, waitSamples, Option.map_map, Option.map_map]
  exact congrArg (Option.map · q.waitTime) (funext fun h => samples_withWait h fact)

end QueueRecord

/-! ## What an observer keeps -/

/-- The observer keeps what the log says: since when each key is in flight if waiting times are
tracked, the size, and a record of its own if there is to be one. -/
structure Observer.Follows (s : Settings) (o : Observer) (log : ItemLog) : Prop where
  addedAt_isSome : o.addedAt.isSome = s.trackWaitTimes
  addedAt_eq : ∀ times, o.addedAt = some times → ∀ key, times[key]? = log.inFlightSince key
  size_eq : o.size = log.size
  own_isSome : o.own.isSome = s.localStats
  own_tracks : ∀ q, o.own = some q → q.tracksWaitTimes = s.trackWaitTimes

namespace Observer

variable {s : Settings} {o : Observer} {log : ItemLog}

theorem follows_fresh {capacity : UInt64} {own : Option QueueRecord} (queueId : String)
    (shared : Nat) (h : Monitor.newOwn s capacity = .ok own) :
    (fresh s queueId shared own).Follows s [] where
  addedAt_isSome := by
    show (if s.trackWaitTimes then some ∅ else none).isSome = _
    cases s.trackWaitTimes <;> rfl
  addedAt_eq times htimes key := by
    obtain ⟨-, heq⟩ := Option.ite_none_right_eq_some.mp htimes
    rw [← Option.some.inj heq]
    exact Std.TreeMap.getElem?_emptyc
  size_eq := rfl
  own_isSome := (Monitor.newOwn_eq_ok h).1
  own_tracks := (Monitor.newOwn_eq_ok h).2

theorem Follows.told (h : o.Follows s log) (now : Duration) (c : ItemChange) (key : Nat) :
    (o.told now c key).Follows s (log ++ [⟨now, c, key⟩]) := by
  rw [told_eq]
  refine ⟨Option.isSome_map.trans h.addedAt_isSome, ?_, ?_,
    Option.isSome_map.trans h.own_isSome, ?_⟩
  · intro times htimes k
    obtain ⟨old, hold, rfl⟩ := Option.map_eq_some_iff.mp htimes
    rw [ItemLog.inFlightSince_append, ← h.addedAt_eq old hold k]
    by_cases hc : c = .added
    · simp [hc, Std.TreeMap.getElem?_insert]
    · simp [hc, Std.TreeMap.getElem?_erase]
  · rw [ItemLog.size_append, ← h.size_eq]
  · intro q hq
    obtain ⟨old, hold, rfl⟩ := Option.map_eq_some_iff.mp hq
    rw [QueueRecord.tracksWaitTimes_note]
    exact h.own_tracks old hold

/-- Using the record of an observer directly does not touch what it knows of items. -/
theorem Follows.onOwn (h : o.Follows s log) (op : QueueRecord.Op) :
    Follows s { o with own := o.own.map fun q => (q.perform op).1 } log :=
  { h with
    own_isSome := Option.isSome_map.trans h.own_isSome
    own_tracks := fun q hq => by
      obtain ⟨old, hold, rfl⟩ := Option.map_eq_some_iff.mp hq
      rw [QueueRecord.tracksWaitTimes_perform]
      exact h.own_tracks old hold }

/-- An observer makes of a change what the log says. -/
theorem Follows.fact_eq (h : o.Follows s log) (htrack : s.trackWaitTimes = true) (now : Duration)
    (c : ItemChange) (key : Nat) : (o.follow now c key).2 = log.fact now c key := by
  cases c with
  | added => rfl
  | removed =>
      obtain ⟨times, htimes⟩ := Option.isSome_iff_exists.mp (h.addedAt_isSome.trans htrack)
      have hat : o.addedAt? key = log.inFlightSince key := by
        rw [addedAt?, htimes]
        exact h.addedAt_eq times htimes key
      show QueueRecord.Fact.removal (o.size - 1) ((o.addedAt? key).map (now - ·)) = _
      rw [h.size_eq, hat]
      rfl
  | dropped => rfl

theorem Follows.trackedItems_eq (h : o.Follows s log) (htrack : s.trackWaitTimes = true) :
    o.trackedItems = log.inFlight.card := by
  obtain ⟨times, htimes⟩ := Option.isSome_iff_exists.mp (h.addedAt_isSome.trans htrack)
  rw [trackedItems, htimes]
  exact ItemLog.size_eq_card (h.addedAt_eq times htimes)

end Observer

/-! ## Runs -/

namespace Monitor

/-- What a run tells the observer with a number. -/
def toldTo (i : Nat) (ops : List Op) : ItemLog :=
  ops.filterMap fun
    | .change j now c key => if j = i then some ⟨now, c, key⟩ else none
    | _ => none

/-- The observer with a number exists, has a shared record, and follows the log. -/
structure Tracks (s : Settings) (m : Monitor) (i : Nat) (log : ItemLog) : Prop where
  sound : m.registry.Sound s
  observer : ∃ o, m.observers[i]? = some o ∧
    m.registry.names[o.shared]? = some o.queueId ∧ o.Follows s log

variable {s : Settings} {m : Monitor} {i : Nat} {log : ItemLog}

theorem toldTo_change_self (i : Nat) (now : Duration) (c : ItemChange) (key : Nat) :
    toldTo i [.change i now c key] = [⟨now, c, key⟩] := by
  simp [toldTo]

theorem toldTo_eq_nil {op : Op} (h : ∀ now c key, op ≠ .change i now c key) :
    toldTo i [op] = [] := by
  cases op with
  | change j now c key =>
      have hij : j ≠ i := fun hij => h now c key (hij ▸ rfl)
      simp [toldTo, hij]
  | _ => rfl

theorem Tracks.perform (h : m.Tracks s i log) (op : Op) :
    (m.perform op).1.Tracks s i (log ++ toldTo i [op]) := by
  obtain ⟨o, ho, hshared, hfollows⟩ := h.observer
  obtain ⟨hlt, -⟩ := List.getElem?_eq_some_iff.mp ho
  have hlater := m.later_perform (s := s) op
  refine ⟨hlater.sound h.sound, ?_⟩
  -- Only a change told to this observer and a use of its own record touch the observer.
  by_cases hchange : ∃ now c key, op = .change i now c key
  · obtain ⟨now, c, key, rfl⟩ := hchange
    have hqueue : (o.told now c key).queueId = o.queueId := by rw [Observer.told_eq]
    refine ⟨o.told now c key, ?_, ?_, ?_⟩
    · rw [Monitor.perform, change_eq ho]
      exact List.getElem?_set_self hlt
    · rw [o.told_shared, hqueue]
      exact hlater.getElem?_names hshared
    · rw [toldTo_change_self]
      exact hfollows.told now c key
  · have hother : ∀ now c key, op ≠ .change i now c key :=
      fun now c key heq => hchange ⟨now, c, key, heq⟩
    rw [toldTo_eq_nil hother, List.append_nil]
    by_cases hown : ∃ own, op = .onOwn i own
    · obtain ⟨own, rfl⟩ := hown
      refine ⟨{ o with own := o.own.map fun q => (q.perform own).1 }, ?_,
        hlater.getElem?_names hshared, hfollows.onOwn own⟩
      show (m.visitOwn i (·.perform own)).1.observers[i]? = _
      rw [visitOwn_fst ho]
      exact List.getElem?_set_self hlt
    · exact ⟨o, getElem?_observers_perform ho hother fun own heq => hown ⟨own, heq⟩,
        hlater.getElem?_names hshared, hfollows⟩

theorem Tracks.after (h : m.Tracks s i log) (ops : List Op) :
    (m.after ops).Tracks s i (log ++ toldTo i ops) := by
  induction ops generalizing m log with
  | nil => exact (List.append_nil log).symm ▸ h
  | cons op rest ih =>
      have hsplit : toldTo i (op :: rest) = toldTo i [op] ++ toldTo i rest :=
        List.filterMap_append (l := [op])
      rw [hsplit, ← List.append_assoc]
      exact ih (h.perform op)

/-- A new observer follows the empty log. -/
theorem tracks_observe (h : m.registry.Sound s) {queueId : String} {capacity : UInt64}
    (hi : (m.observe queueId capacity).2.2 = .ok i) :
    (m.observe queueId capacity).1.Tracks s i [] := by
  obtain ⟨shared, own, hshared, hown, rfl, hobservers⟩ := observe_eq_ok hi
  have hsound := (Registry.later_recordFor queueId capacity).sound h
  rw [hsound.settings_eq] at hown hobservers
  refine ⟨(observe_registry m queueId capacity).symm ▸ hsound,
    .fresh s queueId shared own, ?_, ?_, Observer.follows_fresh queueId shared hown⟩
  · rw [hobservers, List.getElem?_concat_length]
  · rw [observe_registry]
    exact Registry.getElem?_names_recordFor hshared

/-! ## Both records of an observer -/

/-- The shared record of the observer with a number. -/
def sharedOf (m : Monitor) (i : Nat) : Option QueueRecord :=
  m.observers[i]?.bind fun o => m.registry.records[o.shared]?.map (·.2)

/-- The record that the observer with a number keeps for itself. -/
def ownOf (m : Monitor) (i : Nat) : Option QueueRecord := m.observers[i]?.bind (·.own)

theorem sharedOf_eq {o : Observer} {queueId : String} {q : QueueRecord}
    (ho : m.observers[i]? = some o) (hq : m.registry.records[o.shared]? = some (queueId, q)) :
    m.sharedOf i = some q := by
  rw [sharedOf, ho, Option.bind_some, hq, Option.map_some]

theorem ownOf_eq {o : Observer} (ho : m.observers[i]? = some o) : m.ownOf i = o.own := by
  rw [ownOf, ho, Option.bind_some]

/-- Telling an observer of an item makes its shared record and its own one take note of a fact,
which brings each of them this many waiting times. -/
structure Relays (m : Monitor) (i : Nat) (now : Duration) (c : ItemChange) (key : Nat)
    (fact : QueueRecord.Fact) (samples : Nat) : Prop where
  shared : (m.change i now c key).1.sharedOf i = (m.sharedOf i).map fun q => (q.note now fact).1
  own : (m.change i now c key).1.ownOf i = (m.ownOf i).map fun q => (q.note now fact).1
  sampled : ∀ q, m.sharedOf i = some q ∨ m.ownOf i = some q →
    ∃ n, q.waitSamples = some n ∧ (q.note now fact).1.waitSamples = some (n + samples)

theorem Tracks.isSome_sharedOf (h : m.Tracks s i log) : (m.sharedOf i).isSome := by
  obtain ⟨o, ho, hshared, -⟩ := h.observer
  obtain ⟨q, hq⟩ := Registry.getElem?_names_iff.mp hshared
  rw [sharedOf_eq ho hq, Option.isSome_some]

theorem Tracks.isSome_ownOf (h : m.Tracks s i log) : (m.ownOf i).isSome = s.localStats := by
  obtain ⟨o, ho, -, hfollows⟩ := h.observer
  rw [ownOf_eq ho, hfollows.own_isSome]

theorem Tracks.tracksWaitTimes (h : m.Tracks s i log) {q : QueueRecord}
    (hq : m.sharedOf i = some q ∨ m.ownOf i = some q) : q.tracksWaitTimes = s.trackWaitTimes := by
  obtain ⟨o, ho, -, hfollows⟩ := h.observer
  rcases hq with hshared | hown
  · rw [sharedOf, ho, Option.bind_some] at hshared
    obtain ⟨entry, hentry, rfl⟩ := Option.map_eq_some_iff.mp hshared
    exact h.sound.tracks entry (List.mem_of_getElem? hentry)
  · exact hfollows.own_tracks q (ownOf_eq ho ▸ hown)

/-- On every run both records are told what the log of the observer says. -/
theorem Tracks.relays (h : m.Tracks s i log) (htrack : s.trackWaitTimes = true) (now : Duration)
    (c : ItemChange) (key : Nat) :
    m.Relays i now c key (log.fact now c key) (log.fact now c key).samples := by
  obtain ⟨o, ho, hshared, hfollows⟩ := h.observer
  obtain ⟨hlt, -⟩ := List.getElem?_eq_some_iff.mp ho
  obtain ⟨q, hq⟩ := Registry.getElem?_names_iff.mp hshared
  obtain ⟨hltq, -⟩ := List.getElem?_eq_some_iff.mp hq
  have ho' : (m.change i now c key).1.observers[i]? = some (o.told now c key) := by
    rw [change_eq ho]
    exact List.getElem?_set_self hlt
  have hq' : (m.change i now c key).1.registry.records[(o.told now c key).shared]? =
      some (o.queueId, (q.note now (log.fact now c key)).1) := by
    rw [change_eq ho, Registry.visit_eq hq, o.told_shared, ← hfollows.fact_eq htrack]
    exact List.getElem?_set_self hltq
  refine ⟨?_, ?_, ?_⟩
  · rw [sharedOf_eq ho' hq', sharedOf_eq ho hq, Option.map_some]
  · rw [ownOf_eq ho', ownOf_eq ho, ← hfollows.fact_eq htrack]
    rfl
  · intro p hp
    obtain ⟨w, hw⟩ := Option.isSome_iff_exists.mp ((h.tracksWaitTimes hp).trans htrack)
    rw [QueueRecord.waitSamples_note, QueueRecord.waitSamples, hw]
    exact ⟨_, rfl, rfl⟩

/-! ## Well-formed runs -/

/-- The bookkeeping of the observer with a number is exact after the log of what it was told, and
will be in whatever may be told next. -/
structure Exact (m : Monitor) (i : Nat) (log : ItemLog) : Prop where
  inFlight : ∃ o, m.observers[i]? = some o ∧
    o.size = log.inFlight.card ∧ o.trackedItems = log.inFlight.card
  balance : log.counted .added =
    log.inFlight.card + log.counted .removed + log.counted .dropped
  records : (m.sharedOf i).isSome ∧ (m.ownOf i).isSome = m.registry.settings.localStats
  added : ∀ now key, log.inFlightSince key = none → m.Relays i now .added key .addition 0
  removed : ∀ now key since, log.inFlightSince key = some since →
    ∃ wait : Duration, (since ≤ now → since + wait = now) ∧ (now < since → wait = .zero) ∧
      m.Relays i now .removed key
        (.removal (ItemLog.inFlight (log ++ [⟨now, .removed, key⟩])).card (some wait)) 1
  dropped : ∀ now key since, log.inFlightSince key = some since →
    m.Relays i now .dropped key .drop 0

theorem Tracks.exact (h : m.Tracks s i log) (htrack : s.trackWaitTimes = true)
    (hlog : log.WellFormed) : m.Exact i log where
  inFlight := by
    obtain ⟨o, ho, -, hfollows⟩ := h.observer
    exact ⟨o, ho, hfollows.size_eq.trans hlog.size_eq, hfollows.trackedItems_eq htrack⟩
  balance := hlog.added_eq
  records := ⟨h.isSome_sharedOf, h.sound.settings_eq ▸ h.isSome_ownOf⟩
  added now key _ := h.relays htrack now .added key
  removed now key since hsince := by
    have hcard : log.size - 1 = (ItemLog.inFlight (log ++ [⟨now, .removed, key⟩])).card := by
      have hleft : (⟨now, .removed, key⟩ : Told).change ≠ .added := nofun
      rw [hlog.size_eq, ← ItemLog.card_append_left hleft (hsince ▸ Option.some_ne_none since),
        Nat.add_sub_cancel]
    have hfact : log.fact now .removed key = .removal
        (ItemLog.inFlight (log ++ [⟨now, .removed, key⟩])).card (some (now - since)) := by
      rw [ItemLog.fact, hcard, hsince]
      rfl
    refine ⟨now - since, Duration.add_sub_of_le, Duration.sub_eq_zero_of_lt, ?_⟩
    have hrelays := h.relays htrack now .removed key
    rwa [hfact] at hrelays
  dropped now key _ _ := h.relays htrack now .dropped key

/-- If an observer is only told of additions of items that are not in flight and of removals and
drops of items that are, then its bookkeeping is exact at every point of the run. -/
theorem exact_after_run (htrack : s.trackWaitTimes = true) (hm : m.Reachable s)
    {queueId : String} {capacity : UInt64} (hi : (m.observe queueId capacity).2.2 = .ok i)
    (ops : List Op) (hlog : (toldTo i ops).WellFormed) :
    ((m.observe queueId capacity).1.after ops).Exact i (toldTo i ops) :=
  ((tracks_observe hm.sound hi).after ops).exact htrack hlog

/-- A monitor that tracks waiting times and has made no observer. -/
def watchful : Monitor :=
  ⟨⟨{ Settings.standard with localStats := true, trackWaitTimes := true }, []⟩, []⟩

/-- An item is added, is removed after the clock went back, and is added again. -/
def readded : List Op :=
  [.change 0 (.ofMillis 5) .added 1, .log (.ofMillis 6), .change 0 (.ofMillis 3) .removed 1,
    .change 0 (.ofMillis 9) .added 1]

theorem exact_after_readded :
    watchful.Reachable watchful.registry.settings ∧
      (watchful.observe "work" 8).2.2 = .ok 0 ∧ (toldTo 0 readded).WellFormed ∧
      ((watchful.observe "work" 8).1.after readded).Exact 0 (toldTo 0 readded) := by
  have hreachable : watchful.Reachable watchful.registry.settings := ⟨watchful, [], rfl, rfl⟩
  have hobserve : (watchful.observe "work" 8).2.2 = .ok 0 :=
    observe_of_usable rfl rfl "work" (by decide)
  have hlog : (toldTo 0 readded).WellFormed := by decide
  exact ⟨hreachable, hobserve, hlog, exact_after_run rfl hreachable hobserve readded hlog⟩

end Monitor

end WindowedStats
