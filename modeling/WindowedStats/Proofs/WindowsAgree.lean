import WindowedStats.Proofs.UpdateLog
import WindowedStats.Proofs.UsableSettings
import WindowedStats.Proofs.WindowContents

/-!
# A rate tracker and a sliding window agree

A rate tracker with ticks of one millisecond and a sliding window of the same length are two ways to
sum up the recent past: one counts in a ring of slots, the other keeps every value.  Here both are
given the same values at the same instants, and each is read in between, which makes the tracker
sweep its ring and the window trim its queue at moments of their own.

Each of them is already known to be an account of all that it was given: the tracker of a log of
updates (`UpdateLog.Describes`), the window of the values added (`Watched.Keeps`).  On a clock that
never goes back no update comes too late, so these are accounts of one list (`OnTime`).  It is left
to see that the two edges coincide: the ticks that are live for a tracker of `n` ticks are those
whose age is at most `n` milliseconds (`live_iff_fresh`).
-/

namespace WindowedStats

namespace Tandem

open SlidingWindow (isStale Watched)
open RateTracker (Call)

/-- A value is given to both, the tracker is read, or the window is made to evict. -/
inductive Op where
  | add (v : Nat)
  | count
  | rate
  | evict

abbrev Run := List (Duration × Op)

/-- The calls of a run to the tracker. -/
def calls (run : Run) : List Call :=
  run.filterMap fun
    | (now, .add v) => some (.update v now.counterMillis)
    | (now, .count) => some (.countAt now.counterMillis)
    | (now, .rate) => some (.rateAt now.counterMillis)
    | (_, .evict) => none

/-- The operations of a run on the window. -/
def windowRun (run : Run) : SlidingWindow.Run Nat :=
  run.filterMap fun
    | (now, .add v) => some (now, .add v)
    | (now, .evict) => some (now, .evict)
    | _ => none

/-- An instant that is a whole number of milliseconds, and not too late for a 64-bit counter of
them. -/
def OnCounter (now : Duration) : Prop := now.nanos % nanosPerMilli = 0 ∧ now.millis < wordCount

instance (now : Duration) : Decidable (OnCounter now) := inferInstanceAs (Decidable (_ ∧ _))

/-- The clock never goes back during the run and until the instant `now`. -/
def Forward (run : Run) (now : Duration) : Prop := (run.map (·.1) ++ [now]).Pairwise (· ≤ ·)

instance (run : Run) (now : Duration) : Decidable (Forward run now) :=
  inferInstanceAs (Decidable (List.Pairwise _ _))

theorem calls_append (run : Run) (e : Duration × Op) : calls (run ++ [e]) = calls run ++ calls [e] :=
  List.filterMap_append

theorem windowRun_append (run : Run) (e : Duration × Op) :
    windowRun (run ++ [e]) = windowRun run ++ windowRun [e] := List.filterMap_append

theorem forward_append {run : Run} {e : Duration × Op} {now : Duration}
    (h : Forward (run ++ [e]) now) : Forward run e.1 ∧ e.1 ≤ now := by
  rw [Forward, List.map_append] at h
  obtain ⟨hrun, -, hlast⟩ := List.pairwise_append.mp h
  exact ⟨hrun, hlast e.1 (by simp) now List.mem_cons_self⟩

theorem le_of_forward {run : Run} {now : Duration} (h : Forward run now) : ∀ e ∈ run, e.1 ≤ now := by
  intro e he
  exact (List.pairwise_append.mp h).2.2 _ (List.mem_map_of_mem he) _ List.mem_cons_self

/-- The operations on the window happen at instants of the run. -/
theorem exists_of_mem_windowRun {run : Run} {w : Duration × SlidingWindow.Op Nat}
    (h : w ∈ windowRun run) : ∃ e ∈ run, e.1 = w.1 := by
  obtain ⟨e, he, hw⟩ := List.mem_filterMap.mp h
  refine ⟨e, he, ?_⟩
  obtain ⟨now, op⟩ := e
  cases op with
  | add v => cases hw; rfl
  | count => cases hw
  | rate => cases hw
  | evict => cases hw; rfl

theorem forward_windowRun {run : Run} {now : Duration} (h : Forward run now) :
    (windowRun run).Forward ∧ ∀ w ∈ windowRun run, w.1 ≤ now := by
  induction run using List.reverseRecOn generalizing now with
  | nil => exact ⟨List.Pairwise.nil, fun _ hw => absurd hw List.not_mem_nil⟩
  | append_singleton run e ih =>
      obtain ⟨hrun, hnow⟩ := forward_append h
      obtain ⟨hforward, hlast⟩ := ih hrun
      constructor
      · rw [windowRun_append, SlidingWindow.Run.Forward, List.pairwise_append]
        refine ⟨hforward, ?_, ?_⟩
        · obtain ⟨d, op⟩ := e
          cases op <;> simp [windowRun]
        · intro w hw w' hw'
          obtain ⟨e', he', hsame⟩ := exists_of_mem_windowRun hw'
          rw [← hsame, List.mem_singleton.mp he']
          exact hlast w hw
      · intro w hw
        obtain ⟨e', he', hsame⟩ := exists_of_mem_windowRun hw
        rw [← hsame]
        exact le_of_forward h e' he'

/-! ## No update is late -/

/-- The update that a value added to the window is for the tracker. -/
def updateOf (t : Timed Nat) : Nat × Nat := (t.addedAt.millis, t.value)

/-- The log has accepted all values added, and nothing has moved its horizon beyond the window that
ends now. -/
structure OnTime (span : Nat) (log : UpdateLog) (now : Duration) (added : List (Timed Nat)) :
    Prop where
  span_eq : log.span = span
  tickMillis_eq : log.tickMillis = 1
  horizon_le : log.horizon ≤ now.millis - span
  accepted_eq : log.accepted = (added.map updateOf).reverse

variable {span : Nat} {log : UpdateLog} {now : Duration} {added : List (Timed Nat)}

theorem OnTime.later (h : OnTime span log now added) {next : Duration} (hnow : now ≤ next) :
    OnTime span log next added := by
  have hmillis : now.millis ≤ next.millis := Nat.div_le_div_right hnow
  have hhorizon := h.horizon_le
  exact ⟨h.span_eq, h.tickMillis_eq, by omega, h.accepted_eq⟩

/-- The horizon of the log after it is moved for the current tick. -/
theorem OnTime.horizon_advance (h : OnTime span log now added) :
    (log.advance now.millis).horizon = now.millis - span := by
  show max log.horizon (now.millis - log.span) = _
  rw [h.span_eq]
  exact Nat.max_eq_right h.horizon_le

theorem OnTime.advance (h : OnTime span log now added) :
    OnTime span (log.advance now.millis) now added :=
  ⟨h.span_eq, h.tickMillis_eq, h.horizon_advance.le, h.accepted_eq⟩

theorem OnTime.accept (h : OnTime span log now added) (v : Nat) :
    OnTime span (log.accept v now.millis) now (added ++ [⟨v, now⟩]) := by
  refine ⟨h.span_eq, h.tickMillis_eq, h.horizon_advance.le, ?_⟩
  rw [List.map_append, List.reverse_append, ← h.accepted_eq]
  rfl

/-- The tick of an instant on the counter. -/
theorem OnTime.tick_eq (h : OnTime span log now added) (hnow : OnCounter now) :
    now.counterMillis / log.tickMillis = now.millis := by
  rw [h.tickMillis_eq, Nat.div_one]
  exact Nat.mod_eq_of_lt hnow.2

theorem OnTime.after (h : OnTime span log now added) (hnow : OnCounter now) (op : Op) :
    OnTime span (log.after (calls [(now, op)])) now
      ((windowRun [(now, op)]).foldl (fun l e => SlidingWindow.Run.note l e.1 e.2) added) := by
  cases op with
  | add v =>
      show OnTime span (log.perform (.update v now.counterMillis)).1 now (added ++ [⟨v, now⟩])
      have hin : ¬ now.millis < log.horizon := by
        have := h.horizon_le
        omega
      rw [UpdateLog.perform, h.tick_eq hnow, if_neg hin]
      exact h.accept v
  | count =>
      show OnTime span (log.advance (now.counterMillis / log.tickMillis)) now added
      rw [h.tick_eq hnow]
      exact h.advance
  | rate =>
      show OnTime span (log.advance (now.counterMillis / log.tickMillis)) now added
      rw [h.tick_eq hnow]
      exact h.advance
  | evict => exact h

theorem OnTime.run (h : OnTime span log .zero []) {run : Run} (hclock : Forward run now)
    (hread : ∀ e ∈ run, OnCounter e.1) :
    OnTime span (log.after (calls run)) now (windowRun run).added := by
  induction run using List.reverseRecOn generalizing now with
  | nil => exact h.later (Nat.zero_le _)
  | append_singleton run e ih =>
      obtain ⟨hrun, hnow⟩ := forward_append hclock
      have hbefore := ih hrun fun d hd => hread d (List.mem_append_left _ hd)
      have hstep := hbefore.after (hread e (List.mem_append_right _ List.mem_cons_self)) e.2
      rw [calls_append, windowRun_append, UpdateLog.after, List.foldl_append,
        SlidingWindow.Run.added, List.foldl_append]
      exact hstep.later hnow

/-- What the tracker counts is what the log has accepted within the window. -/
theorem OnTime.count_eq (h : OnTime span log now added) {t : RateTracker} (ht : log.Describes t)
    (hnow : OnCounter now) :
    (t.countAt now.counterMillis).2 =
      UpdateLog.countFrom (added.map updateOf).reverse (now.millis - span) := by
  have hanswer := (ht.perform (.countAt now.counterMillis)).1
  simp only [UpdateLog.perform, RateTracker.perform, h.tick_eq hnow,
    RateTracker.Answer.count.injEq] at hanswer
  rw [← hanswer, UpdateLog.live, h.horizon_advance, ← h.accepted_eq]
  rfl

/-! ## The two edges of the window coincide -/

/-- What is live for a tracker is what is fresh for a window of the same length: also for a length
beyond the greatest one of a tracker, where nothing is ever too old for either. -/
theorem live_iff_fresh {length now addedAt : Duration} (hlength : length.nanos % nanosPerMilli = 0)
    (hnow : OnCounter now) (hadded : OnCounter addedAt) :
    now.millis - length.wholeMillis ≤ addedAt.millis ↔ now - addedAt ≤ length := by
  have hsubsec : length.subsecNanos % nanosPerMilli = 0 := by
    simp only [Duration.subsecNanos, nanosPerSecond, nanosPerMilli] at hlength ⊢
    omega
  obtain ⟨hnow, hbound⟩ := hnow
  obtain ⟨hadded, -⟩ := hadded
  rw [Duration.wholeMillis, if_pos hsubsec, Duration.le_def, Duration.nanos_sub]
  simp only [Duration.millis, nanosPerMilli, wordCount, maxWord] at *
  omega

theorem countFrom_eq_sum_fresh {length : Duration} (hlength : length.nanos % nanosPerMilli = 0)
    (hnow : OnCounter now) (hadded : ∀ t ∈ added, OnCounter t.addedAt) :
    UpdateLog.countFrom (added.map updateOf).reverse (now.millis - length.wholeMillis) =
      ((added.filter fun t => !isStale length now t).map Timed.value).sum := by
  have hsame : ∀ t ∈ added, decide (now.millis - length.wholeMillis ≤ (updateOf t).1) =
      !isStale length now t := by
    intro t ht
    rw [Bool.eq_iff_iff, SlidingWindow.not_isStale_iff, decide_eq_true_iff]
    exact live_iff_fresh hlength hnow (hadded t ht)
  rw [UpdateLog.countFrom, List.filter_reverse, List.map_reverse, List.sum_reverse, List.filter_map,
    List.map_map]
  have hfilter : added.filter ((fun u : Nat × Nat => decide (now.millis - length.wholeMillis ≤ u.1)) ∘
      updateOf) = added.filter fun t => !isStale length now t := List.filter_congr hsame
  rw [hfilter]
  rfl

/-- The values added carry instants of the run. -/
theorem onCounter_added {run : SlidingWindow.Run Nat} (h : ∀ e ∈ run, OnCounter e.1) :
    ∀ t ∈ run.added, OnCounter t.addedAt := by
  induction run using List.reverseRecOn with
  | nil => exact fun _ ht => absurd ht List.not_mem_nil
  | append_singleton run e ih =>
      have hbefore := ih fun d hd => h d (List.mem_append_left _ hd)
      obtain ⟨d, op⟩ := e
      rw [SlidingWindow.Run.added_append]
      cases op with
      | add v =>
          intro t ht
          rcases List.mem_append.mp ht with hold | hnew
          · exact hbefore t hold
          · rw [List.mem_singleton.mp hnew]
            exact h _ (List.mem_append_right _ List.mem_cons_self)
      | evict => exact hbefore
      | clear => exact fun _ ht => absurd ht List.not_mem_nil

theorem ofWindow_eq_ofTicks {length : Duration} (h : length.wholeMillis ≠ 0) :
    RateTracker.ofWindow length (.ofMillis 1) =
      RateTracker.ofTicks length.wholeMillis (.ofMillis 1) := by
  have htick : (Duration.ofMillis 1).wholeMillis = 1 := by decide
  simp only [RateTracker.ofWindow, htick, Nat.mod_one, Nat.div_one]
  rw [if_neg (by omega)]

/-- A tracker over a whole number of milliseconds, with ticks of one, and a window of the same
length are given the same values on a clock that never goes back and shows whole milliseconds.
Then, whenever they are asked, the count of the tracker is the sum of the values that the window
holds after an eviction. -/
theorem count_eq_sum_held {length : Duration} (hpos : nanosPerMilli ≤ length.nanos)
    (hwhole : length.nanos % nanosPerMilli = 0) :
    ∃ t, RateTracker.ofWindow length (.ofMillis 1) = .ok t ∧
      ∀ (run : Run) (now : Duration), Forward run now → (∀ e ∈ run, OnCounter e.1) →
        OnCounter now →
        ((t.after (calls run)).countAt now.counterMillis).2 =
          (((windowRun run).result length).window.evict now).1.values.sum := by
  have hticks : length.wholeMillis ≠ 0 := length.wholeMillis_ne_zero_iff.mpr ⟨hwhole, hpos⟩
  obtain ⟨t, ht⟩ := (RateTracker.exists_ofTicks_iff length.wholeMillis (.ofMillis 1)).mpr
    ⟨hticks, by decide⟩
  refine ⟨t, (ofWindow_eq_ofTicks hticks).trans ht, ?_⟩
  intro run now hclock hread hnow
  have hempty : OnTime length.wholeMillis (.empty length.wholeMillis t.tickMillis t.windowMillis)
      .zero [] := ⟨rfl, (RateTracker.ofTicks_eq_ok ht).2.1, Nat.zero_le _, rfl⟩
  have hdescribes := (UpdateLog.describes_empty ht).after (calls run)
  obtain ⟨hforward, hlast⟩ := forward_windowRun hclock
  have hadded : ∀ t ∈ (windowRun run).added, OnCounter t.addedAt := by
    refine onCounter_added ?_
    intro w hw
    obtain ⟨e, he, hsame⟩ := exists_of_mem_windowRun hw
    exact hsame ▸ hread e he
  have hheld := (SlidingWindow.Run.keeps_result length hforward hlast).sorts_evict.held
  rw [Watched.length_perform, SlidingWindow.Run.length_result] at hheld
  calc ((t.after (calls run)).countAt now.counterMillis).2
      = UpdateLog.countFrom ((windowRun run).added.map updateOf).reverse
          (now.millis - length.wholeMillis) := (hempty.run hclock hread).count_eq hdescribes hnow
    _ = (((windowRun run).added.filter fun t => !isStale length now t).map Timed.value).sum :=
          countFrom_eq_sum_fresh hwhole hnow hadded
    _ = (((windowRun run).result length).window.evict now).1.values.sum := by
          rw [← hheld]
          rfl

/-- Values at the near and at the far edge of a window of five milliseconds, read in between. -/
def edges : Run :=
  [(.ofMillis 0, .add 3), (.ofMillis 2, .count), (.ofMillis 4, .add 4), (.ofMillis 5, .evict)]

theorem count_eq_sum_held_edges :
    Forward edges (.ofMillis 5) ∧ Forward edges (.ofMillis 6) ∧ (∀ e ∈ edges, OnCounter e.1) ∧
      ∃ t, RateTracker.ofWindow (.ofMillis 5) (.ofMillis 1) = .ok t ∧
        ((t.after (calls edges)).countAt 5).2 = 7 ∧
        ((t.after (calls edges)).countAt 6).2 = 4 := by
  have hfive : Forward edges (.ofMillis 5) := by decide
  have hsix : Forward edges (.ofMillis 6) := by decide
  have hread : ∀ e ∈ edges, OnCounter e.1 := by decide
  have hpos : nanosPerMilli ≤ (Duration.ofMillis 5).nanos := by decide
  obtain ⟨t, ht, hagree⟩ := count_eq_sum_held hpos (by decide)
  refine ⟨hfive, hsix, hread, t, ht, ?_, ?_⟩
  · exact (hagree edges (.ofMillis 5) hfive hread (by decide)).trans rfl
  · exact (hagree edges (.ofMillis 6) hsix hread (by decide)).trans rfl

end Tandem

end WindowedStats
