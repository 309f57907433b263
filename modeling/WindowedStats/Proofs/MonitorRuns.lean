import WindowedStats.Proofs.RecordNotes
import WindowedStats.Proofs.UsableSettings

/-!
# Runs of a monitor

A run is a list of operations, in any order and at any instants: asking for a shared record, making
an observer, telling an observer of an item, using a record directly, and reading the whole
registry.  The instants stand in the operations, so a clock may show anything at any of them.

What a run cannot undo is said once, for one operation on a registry (`Registry.Later`): the records
keep their numbers and their ids, and each of them tallies waiting times exactly if the settings
say so.  An operation on one observer leaves the others alone, and what it does to its own observer
and to the shared record is `Monitor.change_eq`.
-/

namespace WindowedStats

/-! ## What a record takes note of -/

namespace QueueRecord

/-- The waiting time that a fact brings. -/
def Fact.wait? : Fact → Option Duration
  | .removal _ wait => wait
  | _ => none

/-- A histogram of waiting times after one more, if there is one. -/
def withWait (h : Histogram) (wait : Option Duration) : Histogram :=
  wait.elim h fun w => h.push (waitMark w)

theorem waitTime_note (q : QueueRecord) (now : Duration) (fact : Fact) :
    (q.note now fact).1.waitTime = q.waitTime.map (withWait · fact.wait?) := by
  rw [note_fst]
  cases fact with
  | addition => exact Option.map_id'.symm
  | removal size wait =>
      cases wait with
      | none => exact Option.map_id'.symm
      | some w => rfl
  | drop => exact Option.map_id'.symm

theorem tracksWaitTimes_note (q : QueueRecord) (now : Duration) (fact : Fact) :
    (q.note now fact).1.tracksWaitTimes = q.tracksWaitTimes := by
  rw [tracksWaitTimes, waitTime_note, Option.isSome_map]
  rfl

/-- An operation on a record: something happens to the queue, or its figures are read or logged. -/
inductive Op where
  | note (now : Duration) (fact : Fact)
  | report (now : Duration)
  | log (queueId : String) (now : Duration)

/-- The record after an operation, and the events that the operation leaves in the log. -/
def perform (q : QueueRecord) : Op → QueueRecord × List Event
  | .note now fact => q.note now fact
  | .report now => ((q.report now).1, [])
  | .log queueId now => q.log queueId now

theorem tracksWaitTimes_perform (q : QueueRecord) (op : Op) :
    (q.perform op).1.tracksWaitTimes = q.tracksWaitTimes := by
  cases op with
  | note now fact => exact q.tracksWaitTimes_note now fact
  | report now => rfl
  | log queueId now => rfl

end QueueRecord

theorem Settings.tracksWaitTimes_newRecord {s : Settings} {capacity : UInt64} {q : QueueRecord}
    (h : s.newRecord capacity = .ok q) : q.tracksWaitTimes = s.trackWaitTimes := by
  obtain ⟨rates, -, h⟩ := SetupError.bind_eq_ok_iff.mp h
  obtain ⟨waitTime, hwait, h⟩ := SetupError.bind_eq_ok_iff.mp h
  obtain ⟨sizes, -, h⟩ := SetupError.bind_eq_ok_iff.mp h
  cases h
  show waitTime.isSome = s.trackWaitTimes
  rw [newWaitTime] at hwait
  split at hwait
  · next htrack =>
    obtain ⟨w, -, hw⟩ := SetupError.bind_eq_ok_iff.mp hwait
    cases hw
    exact htrack.symm
  · next htrack =>
    cases hwait
    exact (Bool.not_eq_true _ ▸ htrack : s.trackWaitTimes = false).symm

/-! ## Registries only grow -/

namespace Registry

/-- The ids of the records, in order of creation. -/
def names (r : Registry) : List String := r.records.map (·.1)

/-- The registry has the settings `s`, and its records tally waiting times as they say. -/
structure Sound (s : Settings) (r : Registry) : Prop where
  settings_eq : r.settings = s
  tracks : ∀ entry ∈ r.records, entry.2.tracksWaitTimes = s.trackWaitTimes

/-- What stays of a registry: the ids of the records under their numbers, and soundness. -/
structure Later (s : Settings) (r r' : Registry) : Prop where
  names_prefix : r.names <+: r'.names
  sound : r.Sound s → r'.Sound s

variable {s : Settings} {r r' r'' : Registry}

theorem Later.refl (r : Registry) : Later s r r := ⟨List.prefix_refl _, id⟩

theorem Later.trans (h : Later s r r') (h' : Later s r' r'') : Later s r r'' :=
  ⟨h.names_prefix.trans h'.names_prefix, h'.sound ∘ h.sound⟩

theorem Later.getElem?_names (h : Later s r r') {i : Nat} {queueId : String}
    (hi : r.names[i]? = some queueId) : r'.names[i]? = some queueId := by
  obtain ⟨more, hmore⟩ := h.names_prefix
  obtain ⟨hlt, -⟩ := List.getElem?_eq_some_iff.mp hi
  rw [← hmore, List.getElem?_append_left hlt, hi]

theorem getElem?_names_iff {i : Nat} {queueId : String} :
    r.names[i]? = some queueId ↔ ∃ q, r.records[i]? = some (queueId, q) := by
  rw [names, List.getElem?_map]
  cases r.records[i]? with
  | none => simp
  | some entry => simp [Prod.ext_iff]

theorem visit_eq {α : Type} {i : Nat} {queueId : String} {q : QueueRecord}
    (h : r.records[i]? = some (queueId, q)) (f : String → QueueRecord → QueueRecord × α) :
    r.visit i f = ({ r with records := r.records.set i (queueId, (f queueId q).1) },
      some (f queueId q).2) := by
  simp only [visit, h]

theorem visit_fst {α : Type} (r : Registry) (i : Nat) (f : String → QueueRecord → QueueRecord × α) :
    (r.visit i f).1 = { r with records := r.records.modify i fun e => (e.1, (f e.1 e.2).1) } := by
  simp only [visit, List.modify_eq_set_getElem?]
  cases r.records[i]? <;> rfl

theorem visit_snd {α : Type} (r : Registry) (i : Nat) (f : String → QueueRecord → QueueRecord × α) :
    (r.visit i f).2 = r.records[i]?.map fun e => (f e.1 e.2).2 := by
  rw [visit]
  cases r.records[i]? <;> rfl

theorem later_visit {α : Type} (i : Nat) (f : String → QueueRecord → QueueRecord × α)
    (hf : ∀ queueId q, (f queueId q).1.tracksWaitTimes = q.tracksWaitTimes) :
    Later s r (r.visit i f).1 := by
  cases hi : r.records[i]? with
  | none =>
      simp only [visit, hi]
      exact Later.refl r
  | some entry =>
      obtain ⟨queueId, q⟩ := entry
      rw [visit_eq hi]
      constructor
      · obtain ⟨hlt, hid⟩ := List.getElem?_eq_some_iff.mp (getElem?_names_iff.mpr ⟨q, hi⟩)
        have hsame : (r.records.set i (queueId, (f queueId q).1)).map (·.1) = r.names := by
          rw [List.map_set, ← hid]
          exact List.set_getElem_self hlt
        exact ⟨[], by rw [List.append_nil, ← hsame]; rfl⟩
      · intro h
        refine ⟨h.settings_eq, ?_⟩
        intro entry hentry
        rcases List.mem_or_eq_of_mem_set hentry with hold | rfl
        · exact h.tracks entry hold
        · exact (hf queueId q).trans (h.tracks _ (List.mem_of_getElem? hi))

theorem later_visitAll {α : Type} (f : String → QueueRecord → QueueRecord × α)
    (hf : ∀ queueId q, (f queueId q).1.tracksWaitTimes = q.tracksWaitTimes) :
    Later s r (r.visitAll f).1 := by
  rw [visitAll]
  refine List.foldlRecOn (motive := fun (acc : Registry × List (String × α)) => Later s r acc.1)
    r.ids _ (Later.refl r) ?_
  rintro ⟨r', done⟩ hacc queueId -
  cases hfind : r'.find? queueId with
  | none => simpa only [hfind] using hacc
  | some i => simpa only [hfind] using hacc.trans (later_visit i f hf)

theorem later_recordFor (queueId : String) (capacity : UInt64) :
    Later s r (r.recordFor queueId capacity).1 := by
  simp only [recordFor]
  split
  · exact Later.refl r
  · cases hq : r.settings.newRecord capacity with
    | error e => exact Later.refl r
    | ok q =>
        refine ⟨by simp [names], ?_⟩
        intro h
        refine ⟨h.settings_eq, ?_⟩
        intro entry hentry
        rcases List.mem_append.mp hentry with hold | hnew
        · exact h.tracks entry hold
        · rw [List.mem_singleton.mp hnew, ← h.settings_eq]
          exact Settings.tracksWaitTimes_newRecord hq

/-- A record that is asked for stands under its number and has the id that was asked for. -/
theorem getElem?_names_recordFor {queueId : String} {capacity : UInt64} {i : Nat}
    (h : (r.recordFor queueId capacity).2.2 = .ok i) :
    (r.recordFor queueId capacity).1.names[i]? = some queueId := by
  simp only [recordFor] at h ⊢
  cases hfind : r.find? queueId with
  | some j =>
      simp only [hfind, Except.ok.injEq] at h ⊢
      subst h
      obtain ⟨hlt, hid, -⟩ := List.findIdx?_eq_some_iff_getElem.mp hfind
      simp only [decide_eq_true_eq] at hid
      simp [names, List.getElem?_eq_getElem hlt, hid]
  | none =>
      cases hq : r.settings.newRecord capacity with
      | error e => simp [hfind, hq] at h
      | ok q =>
          simp only [hfind, hq, Except.ok.injEq] at h ⊢
          subst h
          simp [names]

theorem later_toJson (now : Duration) : Later s r (r.toJson now).1 :=
  later_visitAll (fun _ q => q.toJson now) fun _ _ => rfl

theorem later_log (now : Duration) : Later s r (r.log now).1 :=
  later_visitAll (fun queueId q => q.log queueId now) fun _ _ => rfl

theorem sound_ofSettings (h : ofSettings s = .ok r) : r.Sound s := by
  obtain ⟨-, -, h⟩ := SetupError.bind_eq_ok_iff.mp h
  cases h
  exact ⟨rfl, fun _ hnone => absurd hnone List.not_mem_nil⟩

end Registry

/-! ## What an observer makes of a change -/

namespace Observer

/-- An observer that has been told nothing. -/
def fresh (s : Settings) (queueId : String) (shared : Nat) (own : Option QueueRecord) : Observer :=
  ⟨queueId, shared, own, if s.trackWaitTimes then some ∅ else none, 0⟩

/-- The observer after it is told a change, with its own record. -/
def told (o : Observer) (now : Duration) (c : ItemChange) (key : Nat) : Observer :=
  { (o.follow now c key).1 with
    own := o.own.map fun q => (q.note now (o.follow now c key).2).1 }

theorem told_eq (o : Observer) (now : Duration) (c : ItemChange) (key : Nat) :
    o.told now c key =
      { o with
        own := o.own.map fun q => (q.note now (o.follow now c key).2).1
        addedAt := o.addedAt.map fun times =>
          if c = .added then times.insert key now else times.erase key
        size := if c = .added then o.size + 1 else o.size - 1 } := by
  cases c <;> rfl

theorem told_shared (o : Observer) (now : Duration) (c : ItemChange) (key : Nat) :
    (o.told now c key).shared = o.shared := by
  rw [told_eq]

theorem follow_own (o : Observer) (now : Duration) (c : ItemChange) (key : Nat) :
    (o.follow now c key).1.own = o.own := by
  cases c <;> rfl

theorem visitOwn_fst {α : Type} (o : Observer) (f : QueueRecord → QueueRecord × α) :
    (o.visitOwn f).1 = { o with own := o.own.map fun q => (f q).1 } := by
  cases o with
  | mk queueId shared own addedAt size => cases own <;> rfl

theorem visitOwn_snd {α : Type} (o : Observer) (f : QueueRecord → QueueRecord × α) :
    (o.visitOwn f).2 = o.own.map fun q => (f q).2 := by
  cases o with
  | mk queueId shared own addedAt size => cases own <;> rfl

end Observer

/-! ## Operations on a monitor -/

namespace Monitor

/-- An operation on a monitor: a shared record is asked for, an observer is made, an observer is
told of an item, a record is used directly, or the figures of all queues are read or logged. -/
inductive Op where
  | lookUp (queueId : String) (capacity : UInt64)
  | observe (queueId : String) (capacity : UInt64)
  | change (i : Nat) (now : Duration) (c : ItemChange) (key : Nat)
  | onShared (record : Nat) (op : QueueRecord.Op)
  | onOwn (i : Nat) (op : QueueRecord.Op)
  | report (now : Duration)
  | log (now : Duration)

/-- The monitor after an operation, and the events that the operation leaves in the log. -/
def perform (m : Monitor) : Op → Monitor × List Event
  | .lookUp queueId capacity =>
    let (r, events, _) := m.registry.recordFor queueId capacity
    ({ m with registry := r }, events)
  | .observe queueId capacity =>
    let (m, events, _) := m.observe queueId capacity
    (m, events)
  | .change i now c key => m.change i now c key
  | .onShared record op =>
    let (m, events) := m.visitRegistry (·.visit record fun _ q => q.perform op)
    (m, events.getD [])
  | .onOwn i op =>
    let (m, events) := m.visitOwn i (·.perform op)
    (m, events.getD [])
  | .report now => ({ m with registry := (m.registry.toJson now).1 }, [])
  | .log now => m.visitRegistry (·.log now)

/-- The monitor after a run. -/
def after (m : Monitor) (ops : List Op) : Monitor := ops.foldl (fun m op => (m.perform op).1) m

/-- Some run leads to the monitor from one that the settings have just made. -/
def Reachable (s : Settings) (m : Monitor) : Prop :=
  ∃ m₀ ops, ofSettings s = .ok m₀ ∧ m₀.after ops = m

variable {s : Settings} {m : Monitor} {i j : Nat} {o : Observer}

theorem visitObserver_eq {α : Type} (h : m.observers[i]? = some o) (f : Observer → Observer × α) :
    m.visitObserver i f = ({ m with observers := m.observers.set i (f o).1 }, some (f o).2) := by
  simp only [visitObserver, h]

theorem visitOwn_fst {α : Type} (h : m.observers[i]? = some o)
    (f : QueueRecord → QueueRecord × α) :
    (m.visitOwn i f).1 =
      { m with observers := m.observers.set i { o with own := o.own.map fun q => (f q).1 } } := by
  rw [← o.visitOwn_fst f]
  exact congrArg Prod.fst (visitObserver_eq h (·.visitOwn f))

theorem visitOwn_of_none {α : Type} (h : m.observers[i]? = none)
    (f : QueueRecord → QueueRecord × α) : (m.visitOwn i f).1 = m := by
  simp only [visitOwn, visitObserver, h]

theorem visitOwn_eq {α : Type} (m : Monitor) (i : Nat) (f : QueueRecord → QueueRecord × α) :
    m.visitOwn i f = ({ m with observers := m.observers.modify i fun o => (o.visitOwn f).1 },
      m.observers[i]?.bind fun o => (o.visitOwn f).2) := by
  simp only [visitOwn, visitObserver, List.modify_eq_set_getElem?]
  cases m.observers[i]? <;> rfl

/-- A change reaches the observer that is told and the shared record under its number. -/
theorem change_eq (h : m.observers[i]? = some o) (now : Duration) (c : ItemChange) (key : Nat) :
    (m.change i now c key).1 =
      ⟨(m.registry.visit o.shared fun _ q => q.note now (o.follow now c key).2).1,
        m.observers.set i (o.told now c key)⟩ := by
  obtain ⟨hlt, -⟩ := List.getElem?_eq_some_iff.mp h
  let o' := (o.follow now c key).1
  let m' : Monitor := { m with observers := m.observers.set i o' }
  have h' : m'.observers[i]? = some o' := List.getElem?_set_self hlt
  have hown : (m'.visitOwn i (·.note now (o.follow now c key).2)).1 =
      { m with observers := m.observers.set i (o.told now c key) } := by
    rw [visitOwn_fst h', List.set_set, Observer.follow_own]
    rfl
  have hset : (m.observers.set i (o.told now c key))[i]? = some (o.told now c key) :=
    List.getElem?_set_self hlt
  simp only [change, visitObserver_eq h]
  show ((m'.visitOwn i (·.note now (o.follow now c key).2)).1.visitShared i
    (·.note now (o.follow now c key).2)).1 = _
  rw [hown]
  simp only [visitShared, hset, visitRegistry, Observer.told_shared]

theorem change_of_none (h : m.observers[i]? = none) (now : Duration) (c : ItemChange)
    (key : Nat) : (m.change i now c key).1 = m := by
  simp only [change, visitObserver, h]

theorem visitOwn_snd {α : Type} (h : m.observers[i]? = some o)
    (f : QueueRecord → QueueRecord × α) :
    (m.visitOwn i f).2 = o.own.map fun q => (f q).2 := by
  rw [← o.visitOwn_snd f]
  exact congrArg (·.2.join) (visitObserver_eq h (·.visitOwn f))

/-- The events of a change are those of the observer's own record and then the shared one's. -/
theorem change_snd (h : m.observers[i]? = some o) (now : Duration) (c : ItemChange) (key : Nat) :
    (m.change i now c key).2 =
      ((o.own.map fun q => (q.note now (o.follow now c key).2).2).getD []) ++
        ((m.registry.visit o.shared fun _ q => q.note now (o.follow now c key).2).2.getD []) := by
  obtain ⟨hlt, -⟩ := List.getElem?_eq_some_iff.mp h
  let o' := (o.follow now c key).1
  let m' : Monitor := { m with observers := m.observers.set i o' }
  have h' : m'.observers[i]? = some o' := List.getElem?_set_self hlt
  have hshared : o'.shared = o.shared := o.told_shared now c key
  simp only [change, visitObserver_eq h]
  show (m'.visitOwn i (·.note now (o.follow now c key).2)).2.getD [] ++
    ((m'.visitOwn i (·.note now (o.follow now c key).2)).1.visitShared i
      (·.note now (o.follow now c key).2)).2.getD [] = _
  rw [visitOwn_snd h', visitOwn_fst h', Observer.follow_own]
  simp only [visitShared, m', List.set_set, List.getElem?_set_self hlt, visitRegistry, hshared]

theorem newOwn_eq_ok {capacity : UInt64} {own : Option QueueRecord}
    (h : newOwn s capacity = .ok own) :
    own.isSome = s.localStats ∧ ∀ q, own = some q → q.tracksWaitTimes = s.trackWaitTimes := by
  cases hlocal : s.localStats with
  | false =>
      simp only [newOwn, hlocal, Bool.false_eq_true, if_false] at h
      cases h
      exact ⟨rfl, fun _ hq => absurd hq.symm (Option.some_ne_none _)⟩
  | true =>
      simp only [newOwn, hlocal, if_true] at h
      obtain ⟨q, hq, h⟩ := SetupError.bind_eq_ok_iff.mp h
      cases h
      exact ⟨rfl, fun _ hsome => Option.some.inj hsome ▸ Settings.tracksWaitTimes_newRecord hq⟩

theorem observe_registry (m : Monitor) (queueId : String) (capacity : UInt64) :
    (m.observe queueId capacity).1.registry = (m.registry.recordFor queueId capacity).1 := by
  simp only [observe]
  split
  · next heq => rw [heq]
  · next heq => split <;> rw [heq]

theorem observe_eq_ok {queueId : String} {capacity : UInt64}
    (h : (m.observe queueId capacity).2.2 = .ok i) :
    ∃ shared own, (m.registry.recordFor queueId capacity).2.2 = .ok shared ∧
      newOwn (m.registry.recordFor queueId capacity).1.settings capacity = .ok own ∧
      i = m.observers.length ∧
      (m.observe queueId capacity).1.observers = m.observers ++
        [.fresh (m.registry.recordFor queueId capacity).1.settings queueId shared own] := by
  simp only [observe] at h ⊢
  split at h
  · cases h
  · next shared heq =>
    split at h
    · cases h
    · next own hown =>
      simp only [Except.ok.injEq] at h
      simp only [heq, hown]
      exact ⟨shared, own, rfl, rfl, h.symm, rfl⟩

/-- Where the settings are usable, a new observer has the next number. -/
theorem observe_of_usable (hm : m.registry.settings = s) (hs : s.validate = .ok ())
    (queueId : String) {capacity : UInt64} (h : s.Usable capacity) :
    (m.observe queueId capacity).2.2 = .ok m.observers.length := by
  have hrecord := (Settings.exists_newRecord_iff_usable hs capacity).mpr h
  obtain ⟨i, hi⟩ := (m.exists_observe_iff queueId capacity).mpr
    ⟨(m.registry.exists_recordFor_iff queueId capacity).mpr (.inr (hm ▸ hrecord)),
      fun _ => hm ▸ hrecord⟩
  obtain ⟨-, -, -, -, rfl, -⟩ := observe_eq_ok hi
  exact hi

theorem observers_prefix_observe (m : Monitor) (queueId : String) (capacity : UInt64) :
    m.observers <+: (m.observe queueId capacity).1.observers := by
  simp only [observe]
  split
  · exact List.prefix_refl _
  · split
    · exact List.prefix_refl _
    · exact List.prefix_append _ _

/-- The shared records only grow, whatever is done to the monitor. -/
theorem later_perform (m : Monitor) (op : Op) :
    Registry.Later s m.registry (m.perform op).1.registry := by
  cases op with
  | lookUp queueId capacity => exact Registry.later_recordFor queueId capacity
  | observe queueId capacity =>
      show Registry.Later s m.registry (m.observe queueId capacity).1.registry
      rw [observe_registry]
      exact Registry.later_recordFor queueId capacity
  | change i now c key =>
      cases hi : m.observers[i]? with
      | none =>
          rw [perform, change_of_none hi]
          exact Registry.Later.refl _
      | some o =>
          rw [perform, change_eq hi]
          exact Registry.later_visit _ _ fun _ q => q.tracksWaitTimes_note now _
  | onShared record op => exact Registry.later_visit _ _ fun _ q => q.tracksWaitTimes_perform op
  | onOwn i op =>
      show Registry.Later s m.registry (m.visitOwn i (·.perform op)).1.registry
      cases hi : m.observers[i]? with
      | none =>
          rw [visitOwn_of_none hi]
          exact Registry.Later.refl _
      | some o =>
          rw [visitOwn_fst hi]
          exact Registry.Later.refl _
  | report now => exact Registry.later_toJson now
  | log now => exact Registry.later_log now

theorem later_after (m : Monitor) (ops : List Op) :
    Registry.Later s m.registry (m.after ops).registry := by
  induction ops generalizing m with
  | nil => exact Registry.Later.refl _
  | cons op rest ih => exact (m.later_perform op).trans (ih (m.perform op).1)

theorem Reachable.sound (h : m.Reachable s) : m.registry.Sound s := by
  obtain ⟨m₀, ops, hm₀, rfl⟩ := h
  obtain ⟨r, hr, h⟩ := SetupError.bind_eq_ok_iff.mp hm₀
  cases h
  exact (later_after _ ops).sound (Registry.sound_ofSettings hr)

/-- An operation that is not about an observer leaves it as it is. -/
theorem getElem?_observers_perform (h : m.observers[i]? = some o) {op : Op}
    (hchange : ∀ now c key, op ≠ .change i now c key) (hown : ∀ own, op ≠ .onOwn i own) :
    (m.perform op).1.observers[i]? = some o := by
  cases op with
  | lookUp queueId capacity => exact h
  | observe queueId capacity =>
      obtain ⟨more, hmore⟩ := m.observers_prefix_observe queueId capacity
      obtain ⟨hlt, -⟩ := List.getElem?_eq_some_iff.mp h
      show (m.observe queueId capacity).1.observers[i]? = some o
      rw [← hmore, List.getElem?_append_left hlt, h]
  | change j now c key =>
      have hij : j ≠ i := fun hij => hchange now c key (hij ▸ rfl)
      cases hj : m.observers[j]? with
      | none => rwa [perform, change_of_none hj]
      | some o' => rwa [perform, change_eq hj, List.getElem?_set_ne hij]
  | onShared record op => exact h
  | onOwn j op =>
      have hij : j ≠ i := fun hij => hown op (hij ▸ rfl)
      show (m.visitOwn j (·.perform op)).1.observers[i]? = some o
      cases hj : m.observers[j]? with
      | none => rwa [visitOwn_of_none hj]
      | some o' => rwa [visitOwn_fst hj, List.getElem?_set_ne hij]
  | report now => exact h
  | log now => exact h

end Monitor

end WindowedStats
