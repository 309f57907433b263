import WindowedStats.Proofs.MonitorRuns

/-!
# Failed setups leave no trace

Making an observer takes two steps that can fail.  The first asks for the shared record of the
queue, which is created if there is none; the second sets up the record that the observer keeps for
itself.  If the second one failed after the first had created a record, a failure would leave that
record behind.

This cannot happen, because both steps set up a record with the same settings for the same capacity
(`recordFor_of_newRecord_error`): if that fails, the first step has created nothing.  The second
step can still fail after the first one succeeded, where the queue has a shared record from an
earlier and smaller capacity.

`failed_setup_changes_nothing` says exactly when asking for a record or an observer fails, and that
the monitor is then the same as before.
-/

namespace WindowedStats

namespace Registry

variable {r : Registry} {queueId : String} {capacity : UInt64} {e : SetupError}

/-- If no record can be set up for the capacity, then asking for one finds a record or fails. -/
theorem recordFor_of_newRecord_error (h : r.settings.newRecord capacity = .error e)
    (queueId : String) :
    r.recordFor queueId capacity =
      (r, [], (r.find? queueId).elim (.error e) .ok) := by
  simp only [recordFor, h]
  cases r.find? queueId with
  | none => rfl
  | some i => rfl

theorem recordFor_eq_error_iff :
    (r.recordFor queueId capacity).2.2 = .error e ↔
      r.find? queueId = none ∧ r.settings.newRecord capacity = .error e := by
  constructor
  · intro h
    simp only [recordFor] at h
    cases hfind : r.find? queueId with
    | some i => simp [hfind] at h
    | none =>
        cases hrecord : r.settings.newRecord capacity with
        | ok q => simp [hfind, hrecord] at h
        | error e' =>
            simp only [hfind, hrecord, Except.error.injEq] at h
            exact ⟨rfl, congrArg _ h⟩
  · rintro ⟨hfind, hrecord⟩
    rw [recordFor_of_newRecord_error hrecord, hfind]
    rfl

theorem recordFor_of_error (h : (r.recordFor queueId capacity).2.2 = .error e) :
    r.recordFor queueId capacity = (r, [], .error e) := by
  obtain ⟨hfind, hrecord⟩ := recordFor_eq_error_iff.mp h
  rw [recordFor_of_newRecord_error hrecord, hfind]
  rfl

end Registry

namespace Monitor

variable {s : Settings} {m : Monitor} {queueId : String} {capacity : UInt64} {e : SetupError}

theorem newOwn_eq_error_iff :
    newOwn s capacity = .error e ↔ s.localStats = true ∧ s.newRecord capacity = .error e := by
  rw [newOwn]
  cases s.localStats with
  | false => simp [pure, Except.pure]
  | true =>
      cases s.newRecord capacity with
      | error e' => simp [bind, Except.bind]
      | ok q => simp [bind, Except.bind, pure, Except.pure]

/-- An observer of a queue without a shared record fails with the record, and one that is to have
its own record fails with that. -/
theorem observe_of_newRecord_error (h : m.registry.settings.newRecord capacity = .error e)
    (hneeds : m.registry.find? queueId = none ∨ m.registry.settings.localStats = true) :
    m.observe queueId capacity = (m, [], .error e) := by
  rw [observe, Registry.recordFor_of_newRecord_error h]
  cases hfind : m.registry.find? queueId with
  | none => rfl
  | some shared =>
      have hown : newOwn m.registry.settings capacity = .error e :=
        newOwn_eq_error_iff.mpr ⟨hneeds.resolve_left (by simp [hfind]), h⟩
      simp only [Option.elim_some, hown]

theorem observe_eq_error_iff :
    (m.observe queueId capacity).2.2 = .error e ↔
      m.registry.settings.newRecord capacity = .error e ∧
        (m.registry.find? queueId = none ∨ m.registry.settings.localStats = true) := by
  constructor
  · intro h
    have hsettings := m.registry.settings_recordFor queueId capacity
    have hshared := @Registry.recordFor_eq_error_iff m.registry queueId capacity e
    simp only [observe] at h
    split at h
    · next heq =>
      rw [heq] at hshared
      obtain ⟨hfind, hrecord⟩ := hshared.mp h
      exact ⟨hrecord, .inl hfind⟩
    · next heq =>
      rw [heq] at hsettings
      split at h
      · next hown =>
        cases h
        rw [hsettings] at hown
        obtain ⟨hlocal, hrecord⟩ := newOwn_eq_error_iff.mp hown
        exact ⟨hrecord, .inr hlocal⟩
      · cases h
  · rintro ⟨hrecord, hneeds⟩
    rw [observe_of_newRecord_error hrecord hneeds]

theorem observe_of_error (h : (m.observe queueId capacity).2.2 = .error e) :
    m.observe queueId capacity = (m, [], .error e) := by
  obtain ⟨hrecord, hneeds⟩ := observe_eq_error_iff.mp h
  exact observe_of_newRecord_error hrecord hneeds

/-- Asking for a shared record fails exactly if the queue has none and none can be set up for the
capacity.  Making an observer fails exactly if no record can be set up for the capacity, and the
queue has no shared record or the observer is to have its own.  Whatever fails leaves the registry
with all its records, and the observers, as they were, and no event. -/
theorem failed_setup_changes_nothing (h : m.Reachable s) (queueId : String) (capacity : UInt64)
    (e : SetupError) :
    ((m.registry.recordFor queueId capacity).2.2 = .error e ↔
      s.newRecord capacity = .error e ∧ m.registry.find? queueId = none) ∧
    ((m.registry.recordFor queueId capacity).2.2 = .error e →
      m.registry.recordFor queueId capacity = (m.registry, [], .error e)) ∧
    ((m.observe queueId capacity).2.2 = .error e ↔
      s.newRecord capacity = .error e ∧
        (m.registry.find? queueId = none ∨ s.localStats = true)) ∧
    ((m.observe queueId capacity).2.2 = .error e →
      m.observe queueId capacity = (m, [], .error e)) := by
  have hs : m.registry.settings = s := h.sound.settings_eq
  refine ⟨?_, Registry.recordFor_of_error, ?_, observe_of_error⟩
  · rw [Registry.recordFor_eq_error_iff, hs]
    exact and_comm
  · rw [observe_eq_error_iff, hs]

/-- A queue has a shared record from a small capacity.  For the greatest capacity, without a cap,
the shared record is found, and the observer's own record fails. -/
theorem failed_setup_changes_nothing_found :
    ∃ (s : Settings) (m : Monitor) (e : SetupError), m.Reachable s ∧ s.localStats = true ∧
      m.registry.find? "q" = some 0 ∧
      (m.observe "q" 18446744073709551615).2.2 = .error e ∧
      m.observe "q" 18446744073709551615 = (m, [], .error e) := by
  let s : Settings :=
    { Settings.standard with localStats := true, capacityCap := 18446744073709551615 }
  let m : Monitor := after ⟨⟨s, []⟩, []⟩ [.lookUp "q" 16]
  have hm : m.Reachable s := ⟨_, _, rfl, rfl⟩
  have hvalid : s.validate = .ok () := rfl
  obtain ⟨q, hq⟩ := (Settings.exists_newRecord_iff_usable hvalid 16).mpr (by decide)
  have hfind : m.registry.find? "q" = some 0 := by
    show (Registry.recordFor ⟨s, []⟩ "q" 16).1.find? "q" = some 0
    rw [Registry.recordFor, hq]
    rfl
  obtain ⟨e, he⟩ : ∃ e, s.newRecord 18446744073709551615 = .error e := by
    cases hrecord : s.newRecord 18446744073709551615 with
    | error e => exact ⟨e, rfl⟩
    | ok q =>
        have husable := (Settings.exists_newRecord_iff_usable hvalid _).mp ⟨q, hrecord⟩
        exact absurd husable (by decide)
  obtain ⟨-, -, hfails, hsame⟩ := failed_setup_changes_nothing hm "q" 18446744073709551615 e
  have hfailed := hfails.mpr ⟨he, .inr rfl⟩
  exact ⟨s, m, e, hm, rfl, hfind, hfailed, hsame hfailed⟩

end Monitor

end WindowedStats
