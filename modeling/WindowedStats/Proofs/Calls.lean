import WindowedStats.Proofs.FailedSetups
import WindowedStats.Proofs.LastingRecords

/-!
# What one call does to a registry

A client looks up records, asks for records, makes observers, and does anything else in between
(`Monitor.Call`).  A call that succeeds in setting up a record or an observer does to the registry
what asking it for a record does (`Monitor.AsksFor`).  Every other call leaves the ids alone, goes
on from the records there are, and leaves no event that tells of a creation
(`Monitor.CreatesNothing`).  That there is no third kind is `Monitor.call_cases`.

Only the events of creation have the debug level, so that is how they are told apart.
-/

namespace WindowedStats

/-! ## Events that tell of no creation -/

namespace QueueRecord

theorem level_note {q : QueueRecord} {now : Duration} {fact : Fact} {e : Event}
    (h : e ∈ (q.note now fact).2) : e.level ≠ .debug := by
  rw [note_snd] at h
  obtain ⟨late, -, rfl⟩ := List.mem_map.mp h
  exact Level.noConfusion

theorem level_reportEvents {queueId : String} {r : QueueReport} {e : Event}
    (h : e ∈ reportEvents queueId r) : e.level ≠ .debug := by
  rw [reportEvents] at h
  split at h
  · cases h
  · rcases List.mem_cons.mp h with rfl | hwarning
    · exact Level.noConfusion
    · split at hwarning
      · rw [List.mem_singleton.mp hwarning]
        exact Level.noConfusion
      · cases hwarning

theorem level_perform {q : QueueRecord} {op : Op} {e : Event} (h : e ∈ (q.perform op).2) :
    e.level ≠ .debug := by
  cases op with
  | note now fact => exact level_note h
  | report now => cases h
  | log queueId now => exact level_reportEvents h

end QueueRecord

theorem Registry.level_log {r : Registry} {now : Duration} {e : Event} (h : e ∈ (r.log now).2) :
    e.level ≠ .debug := by
  change e ∈ (r.visitAll fun queueId q => q.log queueId now).2.flatMap (·.2) at h
  obtain ⟨result, hresult, he⟩ := List.mem_flatMap.mp h
  obtain ⟨queueId, q, hevents⟩ := exists_of_mem_visitAll hresult
  rw [hevents] at he
  exact QueueRecord.level_reportEvents he

/-! ## Calls -/

namespace Monitor

/-- What a client calls: a lookup that creates nothing, or any operation. -/
inductive Call where
  | get (queueId : String)
  | op (op : Op)

/-- The monitor after a call, and the events that the call leaves in the log. -/
def call (m : Monitor) : Call → Monitor × List Event
  | .get _ => (m, [])
  | .op op => m.perform op

/-- The id that a lookup asks for and the number of the record that it gives, if it succeeds.  An
observer gives the shared record that it writes to. -/
def found? (m : Monitor) : Call → Option (String × Nat)
  | .get queueId => (m.registry.find? queueId).map (queueId, ·)
  | .op (.lookUp queueId capacity) =>
    (m.registry.recordFor queueId capacity).2.2.toOption.map (queueId, ·)
  | .op (.observe queueId capacity) =>
    (m.observe queueId capacity).2.2.toOption.bind fun i =>
      (m.observe queueId capacity).1.observers[i]?.map fun o => (queueId, o.shared)
  | .op _ => none

/-- The id and the capacity that a set-up is asked for, if it succeeds. -/
def setUp? (m : Monitor) : Call → Option (String × UInt64)
  | .op (.lookUp queueId capacity) =>
    (m.registry.recordFor queueId capacity).2.2.toOption.map fun _ => (queueId, capacity)
  | .op (.observe queueId capacity) =>
    (m.observe queueId capacity).2.2.toOption.map fun _ => (queueId, capacity)
  | _ => none

/-- After a call the records go on under the ids that they had, and no event tells of a creation. -/
structure CreatesNothing (m : Monitor) (c : Call) : Prop where
  continues : m.registry.Continues (m.call c).1.registry
  names_eq : (m.call c).1.registry.names = m.registry.names
  level : ∀ e ∈ (m.call c).2, e.level ≠ .debug

/-- A call does to the registry what asking it for a record does, and succeeds. -/
structure AsksFor (m : Monitor) (c : Call) (queueId : String) (capacity : UInt64) : Prop where
  succeeds : ∃ i, (m.registry.recordFor queueId capacity).2.2 = .ok i
  registry_eq : (m.call c).1.registry = (m.registry.recordFor queueId capacity).1
  events_eq : (m.call c).2 = (m.registry.recordFor queueId capacity).2.1

variable {m : Monitor}

theorem createsNothing_of_eq {c : Call} (h : m.call c = (m, [])) : m.CreatesNothing c := by
  refine ⟨?_, ?_, ?_⟩
  · rw [h]
    exact .refl _
  · rw [h]
  · rw [h]
    exact List.forall_mem_nil _

theorem createsNothing_change (m : Monitor) (i : Nat) (now : Duration) (c : ItemChange)
    (key : Nat) : m.CreatesNothing (.op (.change i now c key)) := by
  cases hi : m.observers[i]? with
  | none =>
      refine createsNothing_of_eq ?_
      simp only [call, perform, change, visitObserver, hi]
  | some o =>
      refine ⟨?_, ?_, ?_⟩
      · rw [call, perform, change_eq hi]
        exact m.registry.continues_visit _ fun _ q => .perform q (.note now _)
      · rw [call, perform, change_eq hi]
        exact m.registry.names_visit _ _
      · rw [call, perform, change_snd hi, Registry.visit_snd]
        refine List.forall_mem_append.mpr ⟨?_, ?_⟩
        · cases o.own with
          | none => exact List.forall_mem_nil _
          | some q => exact fun e he => QueueRecord.level_note he
        · cases m.registry.records[o.shared]? with
          | none => exact List.forall_mem_nil _
          | some entry => exact fun e he => QueueRecord.level_note he

theorem createsNothing_onShared (m : Monitor) (i : Nat) (op : QueueRecord.Op) :
    m.CreatesNothing (.op (.onShared i op)) := by
  refine ⟨m.registry.continues_visit i fun _ q => .perform q op, m.registry.names_visit i _, ?_⟩
  show ∀ e ∈ (m.registry.visit i fun _ q => q.perform op).2.getD [], e.level ≠ .debug
  rw [Registry.visit_snd]
  cases m.registry.records[i]? with
  | none => exact List.forall_mem_nil _
  | some entry => exact fun e he => QueueRecord.level_perform he

theorem createsNothing_onOwn (m : Monitor) (i : Nat) (op : QueueRecord.Op) :
    m.CreatesNothing (.op (.onOwn i op)) := by
  have hregistry : (m.call (.op (.onOwn i op))).1.registry = m.registry := by
    show (m.visitOwn i (·.perform op)).1.registry = _
    rw [visitOwn_eq]
  refine ⟨hregistry ▸ .refl _, congrArg Registry.names hregistry, ?_⟩
  show ∀ e ∈ (m.visitOwn i (·.perform op)).2.getD [], e.level ≠ .debug
  rw [visitOwn_eq]
  cases m.observers[i]? with
  | none => exact List.forall_mem_nil _
  | some o =>
      show ∀ e ∈ (o.visitOwn (·.perform op)).2.getD [], e.level ≠ .debug
      rw [Observer.visitOwn_snd]
      cases o.own with
      | none => exact List.forall_mem_nil _
      | some q => exact fun e he => QueueRecord.level_perform he

theorem observe_events (m : Monitor) (queueId : String) (capacity : UInt64) :
    (m.observe queueId capacity).2.1 = (m.registry.recordFor queueId capacity).2.1 := by
  simp only [observe]
  split
  · next heq => rw [heq]
  · next heq => split <;> rw [heq]

/-- A call creates nothing, unless it succeeds in setting up a record or an observer: then it does
what asking for the record does. -/
theorem call_cases (m : Monitor) (c : Call) :
    m.setUp? c = none ∧ m.CreatesNothing c ∨
      ∃ queueId capacity, m.setUp? c = some (queueId, capacity) ∧ m.AsksFor c queueId capacity := by
  cases c with
  | get queueId => exact .inl ⟨rfl, createsNothing_of_eq rfl⟩
  | op op =>
      cases op with
      | lookUp queueId capacity =>
          cases hfound : (m.registry.recordFor queueId capacity).2.2 with
          | error e =>
              have hsame := Registry.recordFor_of_error hfound
              refine .inl ⟨by simp only [setUp?, hfound]; rfl, createsNothing_of_eq ?_⟩
              simp only [call, perform, hsame]
          | ok i =>
              refine .inr ⟨queueId, capacity, by simp only [setUp?, hfound]; rfl, ?_⟩
              exact ⟨⟨i, hfound⟩, rfl, rfl⟩
      | observe queueId capacity =>
          cases hmade : (m.observe queueId capacity).2.2 with
          | error e =>
              have hsame := observe_of_error hmade
              refine .inl ⟨by simp only [setUp?, hmade]; rfl, createsNothing_of_eq ?_⟩
              simp only [call, perform, hsame]
          | ok i =>
              obtain ⟨shared, -, hshared, -⟩ := observe_eq_ok hmade
              refine .inr ⟨queueId, capacity, by simp only [setUp?, hmade]; rfl, ?_⟩
              exact ⟨⟨shared, hshared⟩, m.observe_registry queueId capacity,
                m.observe_events queueId capacity⟩
      | change i now c key => exact .inl ⟨rfl, m.createsNothing_change i now c key⟩
      | onShared i op => exact .inl ⟨rfl, m.createsNothing_onShared i op⟩
      | onOwn i op => exact .inl ⟨rfl, m.createsNothing_onOwn i op⟩
      | report now =>
          have hreads := m.registry.continues_visitAll (f := fun _ q => q.toJson now)
            fun _ q => .perform q (.report now)
          exact .inl ⟨rfl, hreads, m.registry.names_visitAll fun _ q => q.toJson now,
            List.forall_mem_nil _⟩
      | log now =>
          have hlogs := m.registry.continues_visitAll (f := fun queueId q => q.log queueId now)
            fun queueId q => .perform q (.log queueId now)
          exact .inl ⟨rfl, hlogs, m.registry.names_visitAll fun queueId q => q.log queueId now,
            fun e he => Registry.level_log he⟩

end Monitor

end WindowedStats
