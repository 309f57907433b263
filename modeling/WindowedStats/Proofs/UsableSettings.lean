import WindowedStats.Proofs.HistogramValues
import WindowedStats.Proofs.SizeMarks
import WindowedStats.Registry.Monitor

/-!
# Which settings can be used

Three checks stand between settings and the record of a queue.  `Settings.validate` looks at the
settings alone: a rate window of a millisecond at least, a capacity cap, ascending thresholds of
waiting times.  A rate tracker asks for a window of whole milliseconds, and a histogram asks for
ascending thresholds, also of those that are made from the capacity of the queue.

What is left to fail once settings are valid is `Settings.Usable` without its two parts: rates over
a window that is not a whole number of milliseconds, or a size mark that has grown to the open end.
Both pass validation (`valid_fractional_window`, `valid_boundless_cap`), so valid settings may fail
when the first queue is set up.  `setup_succeeds_iff` says exactly when they do not.
-/

namespace WindowedStats

/-! ## Windows of whole ticks -/

theorem Duration.wholeMillis_ne_zero_iff (d : Duration) :
    d.wholeMillis ≠ 0 ↔ d.nanos % nanosPerMilli = 0 ∧ nanosPerMilli ≤ d.nanos := by
  by_cases h : d.subsecNanos % nanosPerMilli = 0
  · rw [wholeMillis, if_pos h]
    simp only [subsecNanos, millis, nanosPerSecond, nanosPerMilli, maxWord] at h ⊢
    omega
  · rw [wholeMillis, if_neg h]
    simp only [subsecNanos, nanosPerSecond, nanosPerMilli] at h ⊢
    omega

theorem RateTracker.exists_ofTicks_iff (ticks : Nat) (tick : Duration) :
    (∃ t, ofTicks ticks tick = .ok t) ↔ ticks ≠ 0 ∧ tick.wholeMillis ≠ 0 := by
  simp only [ofTicks]
  split
  · next h => simpa using by omega
  · next h => exact ⟨fun _ => by omega, fun _ => ⟨_, rfl⟩⟩

theorem RateTracker.exists_ofWindow_iff (window tick : Duration) :
    (∃ t, ofWindow window tick = .ok t) ↔
      window.wholeMillis ≠ 0 ∧ tick.wholeMillis ≠ 0 ∧
        window.wholeMillis % tick.wholeMillis = 0 := by
  simp only [ofWindow]
  split
  · next h => simpa using by omega
  · next h =>
    rw [exists_ofTicks_iff]
    have hpos : 0 < tick.wholeMillis := by omega
    have hdvd : tick.wholeMillis ∣ window.wholeMillis := Nat.dvd_of_mod_eq_zero (by omega)
    have hticks : window.wholeMillis / tick.wholeMillis ≠ 0 :=
      (Nat.div_pos (Nat.le_of_dvd (by omega) hdvd) hpos).ne'
    exact ⟨fun _ => by omega, fun hw => ⟨hticks, hw.2.1⟩⟩

theorem ScaledRate.exists_ofWindow_iff (window : Duration) (scale : Float) :
    (∃ r, ScaledRate.ofWindow window scale = .ok r) ↔ window.wholeMillis ≠ 0 := by
  have htick : (Duration.ofMillis 1).wholeMillis = 1 := by decide
  have htracker := RateTracker.exists_ofWindow_iff window (.ofMillis 1)
  rw [htick, Nat.mod_one] at htracker
  constructor
  · rintro ⟨r, hr⟩
    obtain ⟨t, ht, -⟩ := SetupError.bind_eq_ok_iff.mp hr
    exact (htracker.mp ⟨t, ht⟩).1
  · intro hw
    obtain ⟨t, ht⟩ := htracker.mpr ⟨hw, Nat.one_ne_zero, rfl⟩
    exact ⟨_, SetupError.bind_eq_ok_iff.mpr ⟨t, ht, rfl⟩⟩

/-! ## The parts of a record -/

namespace Settings

theorem exists_newRates_iff (s : Settings) :
    (∃ r, s.newRates = .ok r) ↔ (s.trackRates = true → s.rateWindow.wholeMillis ≠ 0) := by
  simp only [newRates]
  cases s.trackRates with
  | false => simp [pure, Except.pure]
  | true =>
      rw [← ScaledRate.exists_ofWindow_iff _ perSecond]
      simp [SetupError.bind_eq_ok_iff, pure, Except.pure]

theorem exists_newWaitTime_iff (s : Settings) :
    (∃ w, s.newWaitTime = .ok w) ↔
      (s.trackWaitTimes = true → 2 ≤ s.waitMarks.length ∧ s.waitMarks.Pairwise (· < ·)) := by
  simp only [newWaitTime]
  cases s.trackWaitTimes with
  | false => simp [pure, Except.pure]
  | true =>
      rw [← Histogram.exists_ofMarks_iff _ waitLabel waitBucketLabel]
      simp [SetupError.bind_eq_ok_iff, pure, Except.pure]

theorem exists_newRecord_iff (s : Settings) (capacity : UInt64) :
    (∃ q, s.newRecord capacity = .ok q) ↔
      (∃ r, s.newRates = .ok r) ∧ (∃ w, s.newWaitTime = .ok w) ∧
        (topMark capacity.toNat s.capacityCap.toNat : Int) < highestEdge := by
  have hsizes := Histogram.exists_ofMarks_iff (queueSizeThresholds capacity s.capacityCap)
    sizeLabel ""
  rw [sizeThresholds_ascend_iff, and_iff_right (two_le_length_sizeThresholds _ _)] at hsizes
  rw [← hsizes]
  constructor
  · rintro ⟨q, hq⟩
    obtain ⟨r, hr, hq⟩ := SetupError.bind_eq_ok_iff.mp hq
    obtain ⟨w, hw, hq⟩ := SetupError.bind_eq_ok_iff.mp hq
    obtain ⟨h, hh, -⟩ := SetupError.bind_eq_ok_iff.mp hq
    exact ⟨⟨r, hr⟩, ⟨w, hw⟩, ⟨h, hh⟩⟩
  · rintro ⟨⟨r, hr⟩, ⟨w, hw⟩, ⟨h, hh⟩⟩
    exact ⟨_, SetupError.bind_eq_ok_iff.mpr ⟨r, hr, SetupError.bind_eq_ok_iff.mpr
      ⟨w, hw, SetupError.bind_eq_ok_iff.mpr ⟨h, hh, rfl⟩⟩⟩⟩

/-! ## Valid settings -/

/-- What validation accepts. -/
theorem validate_eq_ok_iff (s : Settings) :
    s.validate = .ok () ↔
      nanosPerMilli ≤ s.rateWindow.nanos ∧ s.capacityCap ≠ 0 ∧
        2 ≤ s.waitMarks.length ∧ s.waitMarks.Pairwise (· < ·) := by
  have hzero : s.rateWindow = .zero ↔ s.rateWindow.nanos = 0 :=
    ⟨fun h => by rw [h]; rfl, fun h => Duration.ext h⟩
  have hshort : s.rateWindow < .ofMillis 1 ↔ s.rateWindow.nanos < nanosPerMilli := Iff.rfl
  have hwait : discard (Thresholds.ofList s.waitMarks) = .ok () ↔
      2 ≤ s.waitMarks.length ∧ s.waitMarks.Pairwise (· < ·) := by
    rw [← Thresholds.exists_ofList_iff]
    cases Thresholds.ofList s.waitMarks with
    | error e => simp [discard, Functor.discard, Functor.mapConst, Except.map]
    | ok t => simp [discard, Functor.discard, Functor.mapConst, Except.map]
  have hmilli : 0 < nanosPerMilli := by decide
  simp only [validate, SetupError.check_eq_ok_iff, hzero, hshort, hwait]
  constructor
  · rintro ⟨-, hwindow, hcap, hmarks⟩
    exact ⟨Nat.not_lt.mp hwindow, hcap, hmarks⟩
  · rintro ⟨hwindow, hcap, hmarks⟩
    exact ⟨by omega, Nat.not_lt.mpr hwindow, hcap, hmarks⟩

/-- Whether a record for a queue with a capacity can be set up with valid settings: the window of
the rates, if there are any, is a whole number of milliseconds, and no size mark reaches the open
end. -/
def Usable (s : Settings) (capacity : UInt64) : Prop :=
  (s.trackRates = true → s.rateWindow.nanos % nanosPerMilli = 0) ∧
    (topMark capacity.toNat s.capacityCap.toNat : Int) < highestEdge

instance (s : Settings) (capacity : UInt64) : Decidable (s.Usable capacity) :=
  inferInstanceAs (Decidable (_ ∧ _))

theorem exists_newRecord_iff_usable {s : Settings} (h : s.validate = .ok ()) (capacity : UInt64) :
    (∃ q, s.newRecord capacity = .ok q) ↔ s.Usable capacity := by
  obtain ⟨hwindow, -, hmarks⟩ := s.validate_eq_ok_iff.mp h
  rw [exists_newRecord_iff, exists_newRates_iff, exists_newWaitTime_iff, Usable,
    Duration.wholeMillis_ne_zero_iff]
  simp [hwindow, hmarks]

end Settings

/-! ## Records and observers in a registry -/

theorem Registry.settings_recordFor (r : Registry) (queueId : String) (capacity : UInt64) :
    (r.recordFor queueId capacity).1.settings = r.settings := by
  simp only [recordFor]
  split
  · rfl
  · split <;> rfl

/-- The record of a known queue is there already, and needs no setup. -/
theorem Registry.exists_recordFor_iff (r : Registry) (queueId : String) (capacity : UInt64) :
    (∃ i, (r.recordFor queueId capacity).2.2 = .ok i) ↔
      (r.find? queueId).isSome = true ∨ ∃ q, r.settings.newRecord capacity = .ok q := by
  simp only [recordFor]
  cases r.find? queueId with
  | some i => simp
  | none =>
      cases r.settings.newRecord capacity with
      | error e => simp
      | ok q => simp

theorem Monitor.exists_newOwn_iff (s : Settings) (capacity : UInt64) :
    (∃ own, newOwn s capacity = .ok own) ↔
      (s.localStats = true → ∃ q, s.newRecord capacity = .ok q) := by
  simp only [newOwn]
  cases s.localStats with
  | false => simp [pure, Except.pure]
  | true => simp [SetupError.bind_eq_ok_iff, pure, Except.pure]

theorem Monitor.exists_observe_iff (m : Monitor) (queueId : String) (capacity : UInt64) :
    (∃ i, (m.observe queueId capacity).2.2 = .ok i) ↔
      (∃ i, (m.registry.recordFor queueId capacity).2.2 = .ok i) ∧
        (m.registry.settings.localStats = true →
          ∃ q, m.registry.settings.newRecord capacity = .ok q) := by
  rw [← exists_newOwn_iff, ← Registry.settings_recordFor m.registry queueId capacity]
  simp only [observe]
  rcases m.registry.recordFor queueId capacity with ⟨registry, events, e | shared⟩
  · simp
  · cases hown : newOwn registry.settings capacity with
    | error e => simp [hown]
    | ok own => simp [hown]

/-- With valid settings the record of a queue is set up exactly if the settings are usable for its
capacity.  So a registry with these settings gives a record exactly if it has one or they are
usable, and an observer that is to have its own record needs usable settings in any case. -/
theorem setup_succeeds_iff {s : Settings} (h : s.validate = .ok ()) (capacity : UInt64) :
    ((∃ q, s.newRecord capacity = .ok q) ↔ s.Usable capacity) ∧
    ∀ (m : Monitor) (queueId : String), m.registry.settings = s →
      ((∃ i, (m.registry.recordFor queueId capacity).2.2 = .ok i) ↔
        (m.registry.find? queueId).isSome = true ∨ s.Usable capacity) ∧
      ((∃ i, (m.observe queueId capacity).2.2 = .ok i) ↔
        ((m.registry.find? queueId).isSome = true ∨ s.Usable capacity) ∧
          (s.localStats = true → s.Usable capacity)) := by
  have hrecord := Settings.exists_newRecord_iff_usable h capacity
  refine ⟨hrecord, ?_⟩
  intro m queueId hm
  have hshared : (∃ i, (m.registry.recordFor queueId capacity).2.2 = .ok i) ↔
      (m.registry.find? queueId).isSome = true ∨ s.Usable capacity := by
    rw [Registry.exists_recordFor_iff, hm, hrecord]
  exact ⟨hshared, by rw [Monitor.exists_observe_iff, hshared, hm, hrecord]⟩

/-- The standard settings are valid and usable for the greatest capacity. -/
theorem setup_succeeds_standard :
    Settings.standard.validate = .ok () ∧
      ∃ q, Settings.standard.newRecord 18446744073709551615 = .ok q :=
  ⟨rfl, (setup_succeeds_iff rfl 18446744073709551615).1.mpr (by decide)⟩

/-- A window of a millisecond and a half is valid, and no record can be set up with it. -/
theorem valid_fractional_window :
    ({ Settings.standard with rateWindow := .ofNanos 1500000 } : Settings).validate = .ok () ∧
      ∀ capacity, ({ Settings.standard with rateWindow := .ofNanos 1500000 } : Settings).newRecord
        capacity = .error (.unevenWindow 0 1) :=
  ⟨rfl, fun _ => rfl⟩

/-- A boundless cap is valid, and no record can be set up with it for the greatest capacity. -/
theorem valid_boundless_cap :
    ({ Settings.standard with capacityCap := 18446744073709551615 } : Settings).validate = .ok () ∧
      ¬ ∃ q, ({ Settings.standard with capacityCap := 18446744073709551615 } : Settings).newRecord
        18446744073709551615 = .ok q :=
  ⟨rfl, fun h => absurd ((Settings.exists_newRecord_iff_usable rfl _).mp h) (by decide)⟩

end WindowedStats
