import WindowedStats.Proofs.RingContents
import WindowedStats.Queue.Record

/-!
# A rate tracker is a log of updates

The plainest account of a rate window keeps every update that it has accepted and a horizon, the
oldest tick that still counts.  `UpdateLog` is that account.  A query or an accepted update at a
tick moves the horizon up to `span` ticks before it, never back; an update before the horizon is
too late; the count is the sum over the accepted updates from the horizon on.

Two machines with the same calls and answers are compared: the tracker, which keeps one slot per
tick, and the log, which forgets nothing.  `UpdateLog.Describes` ties their states by
`TickRing.Holds`, and each call preserves it and gives the same answer on both sides.

`answers_eq_log` concludes that no sequence of calls tells the two apart, whatever the order of the
times, and says when an update is too late.
-/

namespace WindowedStats

namespace RateTracker

inductive Call where
  | update (count millis : Nat)
  | countAt (millis : Nat)
  | rateAt (millis : Nat)
deriving DecidableEq

/-- The time of a call. -/
def Call.millis : Call → Nat
  | .update _ millis => millis
  | .countAt millis => millis
  | .rateAt millis => millis

/-- What a call gives: the events that an update leaves in the log, or a number. -/
inductive Answer where
  | updated (events : List Event)
  | count (n : Nat)
  | rate (n : Nat)

def perform (t : RateTracker) : Call → RateTracker × Answer
  | .update count millis =>
    ((t.update count millis).1, .updated (QueueRecord.lateEvents (t.update count millis).2))
  | .countAt millis => ((t.countAt millis).1, .count (t.countAt millis).2)
  | .rateAt millis => ((t.rateAt millis).1, .rate (t.rateAt millis).2)

def after (t : RateTracker) (calls : List Call) : RateTracker :=
  calls.foldl (fun t call => (t.perform call).1) t

/-- The answers to some calls, one after the other. -/
def answers (t : RateTracker) : List Call → List Answer
  | [] => []
  | call :: rest => (t.perform call).2 :: (t.perform call).1.answers rest

end RateTracker

/-- The updates that a rate window has accepted, and the oldest tick that still counts. -/
structure UpdateLog where
  /-- The number of ticks in the window besides the oldest one. -/
  span : Nat
  tickMillis : Nat
  windowMillis : Nat
  horizon : Nat
  /-- The accepted updates, each with its tick and its count. -/
  accepted : List (Nat × Nat)

namespace UpdateLog

open RateTracker (Call Answer)

def empty (span tickMillis windowMillis : Nat) : UpdateLog :=
  ⟨span, tickMillis, windowMillis, 0, []⟩

/-- The sum of the counts of the updates at a tick. -/
def countAt (accepted : List (Nat × Nat)) (tick : Nat) : Nat :=
  ((accepted.filter (·.1 = tick)).map (·.2)).sum

/-- The sum of the counts of the updates from a tick on. -/
def countFrom (accepted : List (Nat × Nat)) (tick : Nat) : Nat :=
  ((accepted.filter (tick ≤ ·.1)).map (·.2)).sum

def live (l : UpdateLog) : Nat := countFrom l.accepted l.horizon

/-- Moves the horizon for a tick, if that is forward. -/
def advance (l : UpdateLog) (tick : Nat) : UpdateLog :=
  { l with horizon := max l.horizon (tick - l.span) }

/-- Moves the horizon for the tick of an update and accepts it. -/
def accept (l : UpdateLog) (count tick : Nat) : UpdateLog :=
  { l.advance tick with accepted := (tick, count) :: l.accepted }

/-- The mean number of events per second in the window, rounded to the nearest whole number. -/
def meanRate (l : UpdateLog) : Nat :=
  (Float.ofNat l.live * perSecond / Float.ofNat l.windowMillis + 0.5).toUInt64.toNat

def perform (l : UpdateLog) : Call → UpdateLog × Answer
  | .update count millis =>
    if millis / l.tickMillis < l.horizon then (l, .updated [.lateUpdate ⟨millis, count⟩])
    else (l.accept count (millis / l.tickMillis), .updated [])
  | .countAt millis =>
    (l.advance (millis / l.tickMillis), .count (l.advance (millis / l.tickMillis)).live)
  | .rateAt millis =>
    (l.advance (millis / l.tickMillis), .rate (l.advance (millis / l.tickMillis)).meanRate)

def after (l : UpdateLog) (calls : List Call) : UpdateLog :=
  calls.foldl (fun l call => (l.perform call).1) l

def answers (l : UpdateLog) : List Call → List Answer
  | [] => []
  | call :: rest => (l.perform call).2 :: (l.perform call).1.answers rest

/-! ## Counts per tick and counts from a tick on -/

theorem countAt_cons (tick count : Nat) (accepted : List (Nat × Nat)) :
    countAt ((tick, count) :: accepted) = TickRing.raise (countAt accepted) tick count := by
  funext t
  rw [countAt, TickRing.raise, countAt, List.filter_cons]
  by_cases h : tick = t
  · simp [h, Nat.add_comm]
  · simp [h, Ne.symm h]

/-- The counts of the ticks in a range that reaches beyond every update make up the count from its
start on. -/
theorem sum_countAt (start n : Nat) (accepted : List (Nat × Nat))
    (h : ∀ u ∈ accepted, u.1 < start + n) :
    ∑ k ∈ Finset.range n, countAt accepted (start + k) = countFrom accepted start := by
  induction accepted with
  | nil => simp [countAt, countFrom]
  | cons u rest ih =>
      obtain ⟨tick, count⟩ := u
      have hrest := ih fun v hv => h v (List.mem_cons_of_mem _ hv)
      have htick : tick < start + n := h (tick, count) List.mem_cons_self
      rw [countAt_cons]
      rcases Nat.lt_or_ge tick start with hlt | hge
      · have hsame : ∀ k ∈ Finset.range n,
            TickRing.raise (countAt rest) tick count (start + k) = countAt rest (start + k) := by
          intro k _
          rw [TickRing.raise, if_neg (by omega), Nat.add_zero]
        rw [Finset.sum_congr rfl hsame, hrest]
        simp [countFrom, Nat.not_le.mpr hlt]
      · rw [TickRing.sum_raise _ _ hge htick, hrest]
        simp [countFrom, hge, Nat.add_comm]

/-! ## One call -/

/-- The log describes the tracker: both have the same window, and the ring of the tracker holds the
counts of the log. -/
structure Describes (l : UpdateLog) (t : RateTracker) : Prop where
  span_eq : l.span = t.ring.span
  tickMillis_eq : l.tickMillis = t.tickMillis
  windowMillis_eq : l.windowMillis = t.windowMillis
  horizon_eq : l.horizon = t.ring.oldestTick
  holds : t.ring.Holds (countAt l.accepted)
  accepted_lt : ∀ u ∈ l.accepted, u.1 < t.ring.oldestTick + t.ring.size

theorem describes_empty {ticks : Nat} {tick : Duration} {t : RateTracker}
    (h : RateTracker.ofTicks ticks tick = .ok t) :
    (empty ticks t.tickMillis t.windowMillis).Describes t := by
  simp only [RateTracker.ofTicks] at h
  split at h
  · cases h
  · cases h
    exact ⟨rfl, rfl, rfl, rfl, TickRing.holds_empty ticks, fun _ hu => absurd hu List.not_mem_nil⟩

theorem Describes.live_eq {l : UpdateLog} {t : RateTracker} (h : l.Describes t) :
    l.live = t.total := by
  rw [live, h.horizon_eq, RateTracker.total, h.holds.total_eq]
  exact (sum_countAt _ _ _ h.accepted_lt).symm

theorem Describes.meanRate_eq {l : UpdateLog} {t : RateTracker} (h : l.Describes t) :
    l.meanRate = t.scaledRate perSecond := by
  rw [meanRate, RateTracker.scaledRate, h.live_eq, h.windowMillis_eq]

/-- A tick that was below the end of the window stays below it when the window moves. -/
theorem lt_window_advance {r : TickRing} {tick : Nat} (now : Nat)
    (h : tick < r.oldestTick + r.size) :
    tick < (r.advance now).oldestTick + (r.advance now).size := by
  rw [TickRing.size, TickRing.span_advance, TickRing.oldestTick_advance]
  rw [TickRing.size] at h
  omega

theorem Describes.advance {l : UpdateLog} {t : RateTracker} (h : l.Describes t) (millis : Nat) :
    (l.advance (millis / l.tickMillis)).Describes (t.advance millis) where
  span_eq := h.span_eq.trans (TickRing.span_advance _ _).symm
  tickMillis_eq := h.tickMillis_eq
  windowMillis_eq := h.windowMillis_eq
  horizon_eq := by
    show max l.horizon _ = (t.ring.advance _).oldestTick
    rw [TickRing.oldestTick_advance, h.horizon_eq, h.span_eq, h.tickMillis_eq]
  holds := h.holds.advance _
  accepted_lt u hu := lt_window_advance _ (h.accepted_lt u hu)

/-- What an update does to the tracker depends only on whether its tick is before the horizon. -/
theorem Describes.update_late {l : UpdateLog} {t : RateTracker} (h : l.Describes t)
    (count : Nat) {millis : Nat} (hlate : millis / l.tickMillis < l.horizon) :
    t.update count millis = (t, some ⟨millis, count⟩) := by
  rw [h.tickMillis_eq, h.horizon_eq] at hlate
  rw [RateTracker.update, TickRing.add?_of_lt hlate]

theorem Describes.update_accepted {l : UpdateLog} {t : RateTracker} (h : l.Describes t)
    (count : Nat) {millis : Nat} (hin : ¬ millis / l.tickMillis < l.horizon) :
    (t.update count millis).2 = none ∧
      (l.accept count (millis / l.tickMillis)).Describes (t.update count millis).1 := by
  have hle : t.ring.oldestTick ≤ millis / t.tickMillis := by
    rw [h.tickMillis_eq, h.horizon_eq] at hin
    exact Nat.not_lt.mp hin
  have hadv := h.advance millis
  have hmem := TickRing.tick_mem_advance hle
  rw [RateTracker.update, TickRing.add?_of_le hle]
  refine ⟨rfl, hadv.span_eq, hadv.tickMillis_eq, hadv.windowMillis_eq, hadv.horizon_eq, ?_, ?_⟩
  · show TickRing.Holds _ (countAt ((_, count) :: l.accepted))
    rw [countAt_cons, h.tickMillis_eq]
    exact h.holds.add count hle
  · intro u hu
    rcases List.mem_cons.mp hu with rfl | hu
    · rw [h.tickMillis_eq]
      exact hmem.2
    · exact hadv.accepted_lt u hu

/-- One call: the same answer, and the log after it describes the tracker after it. -/
theorem Describes.perform {l : UpdateLog} {t : RateTracker} (h : l.Describes t) (call : Call) :
    (l.perform call).2 = (t.perform call).2 ∧
      (l.perform call).1.Describes (t.perform call).1 := by
  cases call with
  | update count millis =>
      by_cases hlate : millis / l.tickMillis < l.horizon
      · have hu := h.update_late count hlate
        simp only [UpdateLog.perform, RateTracker.perform, if_pos hlate, hu]
        exact ⟨rfl, h⟩
      · obtain ⟨hnone, hnext⟩ := h.update_accepted count hlate
        simp only [UpdateLog.perform, RateTracker.perform, if_neg hlate, hnone]
        exact ⟨rfl, hnext⟩
  | countAt millis =>
      exact ⟨congrArg Answer.count (h.advance millis).live_eq, h.advance millis⟩
  | rateAt millis =>
      exact ⟨congrArg Answer.rate (h.advance millis).meanRate_eq, h.advance millis⟩

/-! ## All calls -/

theorem Describes.after {l : UpdateLog} {t : RateTracker} (h : l.Describes t) (calls : List Call) :
    (l.after calls).Describes (t.after calls) := by
  induction calls generalizing l t with
  | nil => exact h
  | cons call rest ih => exact ih (h.perform call).2

theorem tickMillis_perform (l : UpdateLog) (call : Call) :
    (l.perform call).1.tickMillis = l.tickMillis := by
  cases call with
  | update count millis =>
      simp only [perform]
      split <;> rfl
  | countAt millis => rfl
  | rateAt millis => rfl

theorem tickMillis_after (l : UpdateLog) (calls : List Call) :
    (l.after calls).tickMillis = l.tickMillis := by
  induction calls generalizing l with
  | nil => rfl
  | cons call rest ih => exact (ih _).trans (l.tickMillis_perform call)

theorem Describes.answers_eq {l : UpdateLog} {t : RateTracker} (h : l.Describes t)
    (calls : List Call) : l.answers calls = t.answers calls := by
  induction calls generalizing l t with
  | nil => rfl
  | cons call rest ih =>
      obtain ⟨hanswer, hnext⟩ := h.perform call
      rw [UpdateLog.answers, RateTracker.answers, hanswer, ih hnext]

/-- A tracker with `ticks` ticks answers every sequence of calls, at any times, as the log does.
After any calls an update is too late exactly if its tick is before the horizon of the log; then it
leaves the tracker as it is and one TRACE event in the log, and otherwise it leaves none. -/
theorem answers_eq_log {ticks : Nat} {tick : Duration} {t : RateTracker}
    (h : RateTracker.ofTicks ticks tick = .ok t) (calls : List Call) :
    t.answers calls = (empty ticks t.tickMillis t.windowMillis).answers calls ∧
    ∀ count millis : Nat,
      let log := (empty ticks t.tickMillis t.windowMillis).after calls
      let updated := (t.after calls).update count millis
      (updated.2.isSome ↔ millis / t.tickMillis < log.horizon) ∧
      (updated.2.isSome → updated.1 = t.after calls ∧
        QueueRecord.lateEvents updated.2 = [.lateUpdate ⟨millis, count⟩] ∧
        (QueueRecord.lateEvents updated.2).map Event.level = [.trace]) ∧
      (updated.2 = none → QueueRecord.lateEvents updated.2 = []) := by
  have hd := describes_empty h
  have hafter := hd.after calls
  refine ⟨(hd.answers_eq calls).symm, ?_⟩
  intro count millis log updated
  have htick : log.tickMillis = t.tickMillis := tickMillis_after _ calls
  by_cases hlate : millis / log.tickMillis < log.horizon
  · have hu : updated = (t.after calls, some ⟨millis, count⟩) := hafter.update_late count hlate
    rw [htick] at hlate
    simp [hu, hlate, QueueRecord.lateEvents, Event.level]
  · have hnone : updated.2 = none := (hafter.update_accepted count hlate).1
    rw [htick] at hlate
    simp [hnone, hlate, QueueRecord.lateEvents]

/-- Two ticks of ten milliseconds: the second update is too late, the third goes back in time and
still counts until the window has left its tick, and a query of the past finds the same window. -/
theorem answers_eq_log_two_ticks :
    ∃ t, RateTracker.ofTicks 2 (.ofMillis 10) = .ok t ∧
      t.answers [.update 5 95, .update 7 60, .update 3 70, .countAt 99, .countAt 100, .countAt 40] =
        [.updated [], .updated [.lateUpdate ⟨60, 7⟩], .updated [], .count 8, .count 5, .count 5] :=
  ⟨_, rfl, (answers_eq_log (show RateTracker.ofTicks 2 (.ofMillis 10) = .ok _ from rfl) _).1.trans
    rfl⟩

end UpdateLog

end WindowedStats
