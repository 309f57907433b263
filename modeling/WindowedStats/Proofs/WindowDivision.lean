import WindowedStats.Proofs.UsableSettings

/-!
# Which windows a tick divides

A rate tracker takes a window and a tick of any length, checks that the tick divides the window, and
keeps both lengths in milliseconds.  Durations reach far beyond a 64-bit counter of milliseconds,
and a longer one counts there as the greatest value.  So it is these counts that have to divide, and
they divide more often than the lengths do: all windows and ticks beyond the counter count the same.

`ofWindow_divides_counts` says exactly which windows and ticks make a tracker.  If the counter holds
both lengths, they are those of whole milliseconds of which the tick divides the window, and the
tracker has the lengths that were asked for.  Beyond the counter a tick may be accepted that is
longer than its window (`longer_tick_divides`).
-/

namespace WindowedStats

/-! ## Whole milliseconds -/

namespace Duration

/-- Whether a duration is a whole number of milliseconds, and not empty. -/
def IsWholeMillis (d : Duration) : Prop := 0 < d.nanos ∧ nanosPerMilli ∣ d.nanos

instance (d : Duration) : Decidable d.IsWholeMillis := inferInstanceAs (Decidable (_ ∧ _))

/-- The milliseconds of a duration on a 64-bit counter, which shows its greatest value for a longer
one. -/
def countedMillis (d : Duration) : Nat := min d.millis maxWord

theorem countedMillis_of_le {d : Duration} (h : d.millis ≤ maxWord) : d.countedMillis = d.millis :=
  Nat.min_eq_left h

theorem millis_mul_of_isWholeMillis {d : Duration} (h : d.IsWholeMillis) :
    d.millis * nanosPerMilli = d.nanos := Nat.div_mul_cancel h.2

theorem wholeMillis_ne_zero_iff_isWholeMillis {d : Duration} :
    d.wholeMillis ≠ 0 ↔ d.IsWholeMillis := by
  rw [wholeMillis_ne_zero_iff, IsWholeMillis, Nat.dvd_iff_mod_eq_zero]
  simp only [nanosPerMilli]
  omega

theorem wholeMillis_of_isWholeMillis {d : Duration} (h : d.IsWholeMillis) :
    d.wholeMillis = d.countedMillis := by
  have hwhole : d.subsecNanos % nanosPerMilli = 0 := by
    obtain ⟨-, hdvd⟩ := h
    simp only [subsecNanos, nanosPerSecond, nanosPerMilli] at hdvd ⊢
    omega
  rw [wholeMillis, if_pos hwhole, countedMillis]

/-- Lengths of whole milliseconds divide exactly if their milliseconds do. -/
theorem millis_dvd_iff {tick window : Duration} (htick : tick.IsWholeMillis)
    (hwindow : window.IsWholeMillis) : tick.millis ∣ window.millis ↔ tick.nanos ∣ window.nanos := by
  have hpos : 0 < nanosPerMilli := by decide
  rw [← millis_mul_of_isWholeMillis htick, ← millis_mul_of_isWholeMillis hwindow,
    Nat.mul_dvd_mul_iff_right hpos]

end Duration

/-! ## Trackers over a window -/

namespace RateTracker

variable {window tick : Duration}

theorem exists_ofWindow_iff_dvd (window tick : Duration) :
    (∃ t, ofWindow window tick = .ok t) ↔
      window.IsWholeMillis ∧ tick.IsWholeMillis ∧ tick.countedMillis ∣ window.countedMillis := by
  rw [exists_ofWindow_iff, Duration.wholeMillis_ne_zero_iff_isWholeMillis,
    Duration.wholeMillis_ne_zero_iff_isWholeMillis]
  refine and_congr_right ?_
  intro hwindow
  refine and_congr_right ?_
  intro htick
  rw [Duration.wholeMillis_of_isWholeMillis hwindow, Duration.wholeMillis_of_isWholeMillis htick,
    Nat.dvd_iff_mod_eq_zero]

theorem ofWindow_eq_error_of {e : SetupError} (h : ofWindow window tick = .error e) :
    e = .unevenWindow window.wholeMillis tick.wholeMillis := by
  have hfails : ¬ ∃ t, ofWindow window tick = .ok t := by
    rintro ⟨t, ht⟩
    exact absurd (h.symm.trans ht) nofun
  rw [exists_ofWindow_iff] at hfails
  rw [ofWindow, if_pos (by omega)] at h
  cases h
  rfl

/-- A tracker has as many ticks as fit the window, and the lengths that the counter shows. -/
theorem fields_of_ofWindow {t : RateTracker} (h : ofWindow window tick = .ok t) :
    t.ring = .empty (window.countedMillis / tick.countedMillis) ∧
      t.windowMillis = window.countedMillis ∧ t.tickMillis = tick.countedMillis := by
  obtain ⟨hwindow, htick, hdvd⟩ := (exists_ofWindow_iff_dvd window tick).mp ⟨t, h⟩
  obtain ⟨hring, htickMillis, hwindowMillis⟩ := ofTicks_eq_ok (ofWindow_eq_ok h)
  rw [Duration.wholeMillis_of_isWholeMillis htick] at hring htickMillis hwindowMillis
  rw [Duration.wholeMillis_of_isWholeMillis hwindow] at hring hwindowMillis
  refine ⟨hring, ?_, htickMillis⟩
  rw [hwindowMillis, Nat.mul_div_cancel' hdvd]
  exact Nat.min_eq_left (Nat.min_le_right _ _)

theorem exists_ofWindow_iff_of_le (hwindow : window.millis ≤ maxWord)
    (htick : tick.millis ≤ maxWord) :
    (∃ t, ofWindow window tick = .ok t) ↔
      window.IsWholeMillis ∧ tick.IsWholeMillis ∧ tick.nanos ∣ window.nanos := by
  rw [exists_ofWindow_iff_dvd, Duration.countedMillis_of_le hwindow,
    Duration.countedMillis_of_le htick]
  refine and_congr_right ?_
  intro hw
  refine and_congr_right ?_
  intro ht
  exact Duration.millis_dvd_iff ht hw

/-- A window and a tick make a tracker exactly if both are whole numbers of milliseconds, not
empty, and what the counter shows of the tick divides what it shows of the window.  The tracker has
these lengths; every other pair is refused as uneven.  If the counter holds both lengths, the tick
itself has to divide the window, and the tracker has exactly the lengths that were asked for. -/
theorem ofWindow_divides_counts (window tick : Duration) :
    ((∃ t, ofWindow window tick = .ok t) ↔
      window.IsWholeMillis ∧ tick.IsWholeMillis ∧ tick.countedMillis ∣ window.countedMillis) ∧
    (∀ t, ofWindow window tick = .ok t →
      t.ring = .empty (window.countedMillis / tick.countedMillis) ∧
        t.windowMillis = window.countedMillis ∧ t.tickMillis = tick.countedMillis) ∧
    (∀ e, ofWindow window tick = .error e →
      e = .unevenWindow window.wholeMillis tick.wholeMillis) ∧
    (window.millis ≤ maxWord → tick.millis ≤ maxWord →
      ((∃ t, ofWindow window tick = .ok t) ↔
        window.IsWholeMillis ∧ tick.IsWholeMillis ∧ tick.nanos ∣ window.nanos) ∧
      ∀ t, ofWindow window tick = .ok t →
        t.windowMillis * nanosPerMilli = window.nanos ∧
          t.tickMillis * nanosPerMilli = tick.nanos) := by
  refine ⟨exists_ofWindow_iff_dvd window tick, fun t => fields_of_ofWindow,
    fun e => ofWindow_eq_error_of, ?_⟩
  intro hwindow htick
  refine ⟨exists_ofWindow_iff_of_le hwindow htick, ?_⟩
  intro t ht
  obtain ⟨hw, hk, -⟩ := (exists_ofWindow_iff_of_le hwindow htick).mp ⟨t, ht⟩
  obtain ⟨-, hwindowMillis, htickMillis⟩ := fields_of_ofWindow ht
  rw [hwindowMillis, htickMillis, Duration.countedMillis_of_le hwindow,
    Duration.countedMillis_of_le htick]
  exact ⟨Duration.millis_mul_of_isWholeMillis hw, Duration.millis_mul_of_isWholeMillis hk⟩

/-- The longest window that the counter holds, in three ticks. -/
theorem ofWindow_divides_counts_longest :
    (Duration.ofMillis 18446744073709551615).millis ≤ maxWord ∧
      (Duration.ofMillis 6148914691236517205).millis ≤ maxWord ∧
      ∃ t, ofWindow (.ofMillis 18446744073709551615) (.ofMillis 6148914691236517205) = .ok t ∧
        t.ring.span = 3 ∧ t.windowMillis * nanosPerMilli = 18446744073709551615000000 := by
  obtain ⟨hmade, hfields, -, hheld⟩ :=
    ofWindow_divides_counts (.ofMillis 18446744073709551615) (.ofMillis 6148914691236517205)
  obtain ⟨t, ht⟩ := hmade.mpr (by decide)
  refine ⟨by decide, by decide, t, ht, ?_, ?_⟩
  · rw [(hfields t ht).1]
    rfl
  · exact ((hheld (by decide) (by decide)).2 t ht).1

/-- A tick that is five milliseconds longer than its window makes a tracker of one tick. -/
theorem longer_tick_divides :
    ¬ (Duration.ofMillis 18446744073709551621).nanos ∣
        (Duration.ofMillis 18446744073709551616).nanos ∧
      ∃ t, ofWindow (.ofMillis 18446744073709551616) (.ofMillis 18446744073709551621) = .ok t ∧
        t.ring.size = 2 ∧ t.windowMillis = maxWord ∧ t.tickMillis = maxWord := by
  obtain ⟨t, ht⟩ := (exists_ofWindow_iff_dvd (.ofMillis 18446744073709551616)
    (.ofMillis 18446744073709551621)).mpr (by decide)
  obtain ⟨hring, hwindow, htick⟩ := fields_of_ofWindow ht
  refine ⟨by decide, t, ht, ?_, hwindow, htick⟩
  rw [hring]
  rfl

end RateTracker

end WindowedStats
