import Mathlib.Algebra.Order.BigOperators.Group.List
import WindowedStats.Proofs.UpdateLog

/-!
# The edges of a rate window

A rate tracker knows an update only by its tick.  The window of a query therefore starts where a
tick starts: it reaches back for the length of the window and, depending on where in its tick the
query lies, for some part of one more tick.  An update is counted if its tick is in the window
(`RateTracker.Covers`), so an update of an age up to the length of the window always is, and one
that is older by a tick or more never is.

What has to be shown is that the tracker sums up all the updates in that window, although it has
refused some updates on the way, moved its window at every call, and seen the times in any order.  A
query that is not earlier than any call before it finds its window ahead of every horizon so far:
what was refused or forgotten lies before it (`UpdateLog.Recalls`, preserved by every call).

`count_within_one_tick` concludes with the two bounds of a count.
-/

namespace WindowedStats

namespace RateTracker

/-- The updates among some calls, each with its count and its time. -/
def updatesAmong (calls : List Call) : List (Nat × Nat) :=
  calls.filterMap fun
    | .update count millis => some (count, millis)
    | _ => none

/-- The sum of the counts of the updates whose time is of some kind, taken in or not. -/
def countWhere (p : Nat → Bool) (calls : List Call) : Nat :=
  (((updatesAmong calls).filter (p ·.2)).map (·.1)).sum

/-- The window of a query at the time `now` reaches back to the tick of a time. -/
def Covers (t : RateTracker) (now millis : Nat) : Prop :=
  now / t.tickMillis ≤ millis / t.tickMillis + t.ring.span

instance (t : RateTracker) (now millis : Nat) : Decidable (t.Covers now millis) :=
  inferInstanceAs (Decidable (_ ≤ _))

theorem countWhere_append (p : Nat → Bool) (calls more : List Call) :
    countWhere p (calls ++ more) = countWhere p calls + countWhere p more := by
  simp only [countWhere, updatesAmong, List.filterMap_append, List.filter_append, List.map_append,
    List.sum_append]

theorem countWhere_update (p : Nat → Bool) (count millis : Nat) :
    countWhere p [.update count millis] = if p millis then count else 0 := by
  cases hp : p millis with
  | false => simp [countWhere, updatesAmong, hp]
  | true => simp [countWhere, updatesAmong, hp]

/-- More kinds of times give more. -/
theorem countWhere_le {p q : Nat → Bool} (h : ∀ millis, p millis = true → q millis = true)
    (calls : List Call) : countWhere p calls ≤ countWhere q calls := by
  have hsub : ((updatesAmong calls).filter (p ·.2)).Sublist
      ((updatesAmong calls).filter (q ·.2)) := List.monotone_filter_right _ fun u => h u.2
  exact (hsub.map (·.1)).sum_le_sum fun _ _ => Nat.zero_le _

/-! ## Ticks and ages -/

/-- The window covers every age up to its length. -/
theorem covers_of_age_le {t : RateTracker} (hwindow : t.windowMillis ≤ t.tickMillis * t.ring.span)
    {now millis : Nat} (hage : now - millis ≤ t.windowMillis) : t.Covers now millis := by
  have hreach : now ≤ millis + t.tickMillis * t.ring.span := by omega
  calc now / t.tickMillis ≤ (millis + t.tickMillis * t.ring.span) / t.tickMillis :=
        Nat.div_le_div_right hreach
    _ = millis / t.tickMillis + t.ring.span := Nat.add_mul_div_left _ _ t.tickMillis_pos

/-- What the window covers is younger than its length and a tick. -/
theorem age_lt_of_covers {t : RateTracker} {now millis : Nat} (h : t.Covers now millis) :
    now - millis < t.tickMillis * t.ring.span + t.tickMillis := by
  have hnow : now < t.tickMillis * (now / t.tickMillis + 1) :=
    Nat.lt_mul_div_succ now t.tickMillis_pos
  have htick : t.tickMillis * (millis / t.tickMillis) ≤ millis := Nat.mul_div_le _ _
  have hspan : t.tickMillis * (now / t.tickMillis + 1) ≤
      t.tickMillis * (millis / t.tickMillis + t.ring.span + 1) :=
    Nat.mul_le_mul_left _ (Nat.succ_le_succ h)
  have hpos := t.tickMillis_pos
  simp only [Nat.mul_add, Nat.mul_one] at hnow hspan
  omega

end RateTracker

/-! ## What the log recalls -/

namespace UpdateLog

open RateTracker (Call countWhere)

/-- Calls that are not later than the tick `latest` have not moved the horizon beyond the window
that ends there, and whatever of that window one asks for, the log has all updates of it. -/
structure Recalls (l : UpdateLog) (span tickMillis latest : Nat) (calls : List Call) : Prop where
  span_eq : l.span = span
  tickMillis_eq : l.tickMillis = tickMillis
  horizon_le : l.horizon ≤ latest - span
  countFrom_eq : ∀ edge, latest - span ≤ edge →
    countFrom l.accepted edge = countWhere (edge ≤ · / tickMillis) calls

variable {l : UpdateLog} {span tickMillis latest : Nat} {calls : List Call}

theorem recalls_empty (span tickMillis windowMillis latest : Nat) :
    (empty span tickMillis windowMillis).Recalls span tickMillis latest [] :=
  ⟨rfl, rfl, Nat.zero_le _, fun _ _ => rfl⟩

theorem countFrom_cons (tick count : Nat) (accepted : List (Nat × Nat)) (edge : Nat) :
    countFrom ((tick, count) :: accepted) edge =
      countFrom accepted edge + if edge ≤ tick then count else 0 := by
  rw [countFrom, List.filter_cons]
  by_cases h : edge ≤ tick
  · simp [countFrom, h, Nat.add_comm]
  · simp [countFrom, h]

theorem Recalls.horizon_advance (h : l.Recalls span tickMillis latest calls) {tick : Nat}
    (htick : tick ≤ latest) : (l.advance tick).horizon ≤ latest - span := by
  refine Nat.max_le.mpr ⟨h.horizon_le, ?_⟩
  rw [h.span_eq]
  exact Nat.sub_le_sub_right htick span

/-- A query is no update. -/
theorem Recalls.query (h : l.Recalls span tickMillis latest calls) {tick : Nat}
    (htick : tick ≤ latest) {call : Call} (hcall : ∀ p, countWhere p [call] = 0) :
    (l.advance tick).Recalls span tickMillis latest (calls ++ [call]) := by
  refine ⟨h.span_eq, h.tickMillis_eq, h.horizon_advance htick, ?_⟩
  intro edge hedge
  rw [RateTracker.countWhere_append, hcall, Nat.add_zero]
  exact h.countFrom_eq edge hedge

theorem Recalls.perform (h : l.Recalls span tickMillis latest calls) {call : Call}
    (hcall : call.millis / tickMillis ≤ latest) :
    (l.perform call).1.Recalls span tickMillis latest (calls ++ [call]) := by
  cases call with
  | update count millis =>
      have htick : millis / l.tickMillis ≤ latest := h.tickMillis_eq ▸ hcall
      by_cases hlate : millis / l.tickMillis < l.horizon
      -- The horizon that the update has missed is before the edge already.
      · rw [UpdateLog.perform, if_pos hlate]
        refine ⟨h.span_eq, h.tickMillis_eq, h.horizon_le, ?_⟩
        intro edge hedge
        have hbefore : ¬ edge ≤ millis / tickMillis := by
          have hhorizon := h.horizon_le
          rw [h.tickMillis_eq] at hlate
          omega
        rw [RateTracker.countWhere_append, RateTracker.countWhere_update,
          if_neg (by simpa using hbefore), Nat.add_zero]
        exact h.countFrom_eq edge hedge
      · rw [UpdateLog.perform, if_neg hlate]
        refine ⟨h.span_eq, h.tickMillis_eq, h.horizon_advance htick, ?_⟩
        intro edge hedge
        show countFrom ((millis / l.tickMillis, count) :: l.accepted) edge = _
        rw [countFrom_cons, h.countFrom_eq edge hedge, h.tickMillis_eq,
          RateTracker.countWhere_append, RateTracker.countWhere_update]
        simp only [decide_eq_true_eq]
  | countAt millis => exact h.query (h.tickMillis_eq ▸ hcall) fun _ => rfl
  | rateAt millis => exact h.query (h.tickMillis_eq ▸ hcall) fun _ => rfl

theorem Recalls.after (h : l.Recalls span tickMillis latest [])
    (hcalls : ∀ call ∈ calls, call.millis / tickMillis ≤ latest) :
    (l.after calls).Recalls span tickMillis latest calls := by
  induction calls using List.reverseRecOn with
  | nil => exact h
  | append_singleton calls call ih =>
      have hbefore := ih fun c hc => hcalls c (List.mem_append_left _ hc)
      rw [UpdateLog.after, List.foldl_append]
      exact hbefore.perform (hcalls call (List.mem_append_right _ List.mem_cons_self))

end UpdateLog

/-! ## The bounds of a count -/

namespace RateTracker

open UpdateLog (Recalls)

/-- The window of a tracker is as long as its ticks together, unless these are longer than a 64-bit
counter of milliseconds can tell. -/
theorem windowMillis_of_ofTicks {ticks : Nat} {tick : Duration} {t : RateTracker}
    (h : ofTicks ticks tick = .ok t) :
    t.ring.span = ticks ∧ t.windowMillis = min (t.tickMillis * t.ring.span) maxWord := by
  obtain ⟨hring, htick, hwindow⟩ := ofTicks_eq_ok h
  have hspan : t.ring.span = ticks := by rw [hring]; rfl
  exact ⟨hspan, by rw [hspan, htick, hwindow]⟩

variable {ticks : Nat} {tick : Duration} {t : RateTracker} {calls : List Call} {now : Nat}

/-- The log of a tracker after some calls recalls the window of a query that is not earlier than any
of them. -/
theorem recalls_of_ofTicks (h : ofTicks ticks tick = .ok t)
    (hlatest : ∀ call ∈ calls, call.millis ≤ now) :
    ((UpdateLog.empty ticks t.tickMillis t.windowMillis).after calls).Recalls t.ring.span
      t.tickMillis (now / t.tickMillis) calls := by
  rw [(windowMillis_of_ofTicks h).1]
  refine (UpdateLog.recalls_empty ticks _ _ _).after ?_
  intro call hcall
  exact Nat.div_le_div_right (hlatest call hcall)

theorem count_eq_countWhere (h : ofTicks ticks tick = .ok t)
    (hlatest : ∀ call ∈ calls, call.millis ≤ now) :
    ((t.after calls).countAt now).2 = countWhere (t.Covers now) calls := by
  have hlog := recalls_of_ofTicks h hlatest
  have hanswer := (((UpdateLog.describes_empty h).after calls).perform (.countAt now)).1
  generalize (UpdateLog.empty ticks t.tickMillis t.windowMillis).after calls = log at hlog hanswer
  simp only [UpdateLog.perform, perform, Answer.count.injEq, hlog.tickMillis_eq] at hanswer
  have hhorizon :
      (log.advance (now / t.tickMillis)).horizon = now / t.tickMillis - t.ring.span := by
    show max log.horizon (now / t.tickMillis - log.span) = _
    rw [hlog.span_eq]
    exact Nat.max_eq_right hlog.horizon_le
  have hcovers : (fun millis => decide (now / t.tickMillis - t.ring.span ≤ millis / t.tickMillis)) =
      fun millis => decide (t.Covers now millis) := by
    funext millis
    exact decide_eq_decide.mpr Nat.sub_le_iff_le_add
  rw [← hanswer, UpdateLog.live, hhorizon, ← hcovers]
  exact hlog.countFrom_eq _ (Nat.le_refl _)

/-- An update that the window of some later query covers is not too late. -/
theorem update_of_covers (h : ofTicks ticks tick = .ok t) {before : List Call} {millis : Nat}
    (hlatest : ∀ call ∈ before, call.millis ≤ now) (hcovers : t.Covers now millis) (count : Nat) :
    ((t.after before).update count millis).2 = none := by
  have hlog := recalls_of_ofTicks h hlatest
  refine (((UpdateLog.describes_empty h).after before).update_accepted count ?_).1
  have hreach : now / t.tickMillis - t.ring.span ≤ millis / t.tickMillis :=
    Nat.sub_le_iff_le_add.mpr hcovers
  rw [hlog.tickMillis_eq]
  exact Nat.not_lt.mpr (hlog.horizon_le.trans hreach)

/-- The count of a query that is not earlier than any call before it lies between the sum over the
updates of an age up to the length of the window and the sum over those that are older by less than
a tick.  It is the sum over the updates that the window of the query covers: it covers all of the
former and none beyond the latter, and no update that it covers was too late when it came. -/
theorem count_within_one_tick (h : ofTicks ticks tick = .ok t)
    (hlatest : ∀ call ∈ calls, call.millis ≤ now) (hnow : now ≤ maxWord) :
    countWhere (fun millis => now - millis ≤ t.windowMillis) calls ≤
        ((t.after calls).countAt now).2 ∧
      ((t.after calls).countAt now).2 ≤
        countWhere (fun millis => now - millis < t.windowMillis + t.tickMillis) calls ∧
      ((t.after calls).countAt now).2 = countWhere (t.Covers now) calls ∧
      (∀ millis, now - millis ≤ t.windowMillis → t.Covers now millis) ∧
      (∀ millis, t.Covers now millis → now - millis < t.windowMillis + t.tickMillis) ∧
      ∀ before count millis rest, calls = before ++ .update count millis :: rest →
        t.Covers now millis → ((t.after before).update count millis).2 = none := by
  obtain ⟨-, hwindow⟩ := windowMillis_of_ofTicks h
  have hcount := count_eq_countWhere h hlatest
  have hyoung : ∀ millis, now - millis ≤ t.windowMillis → t.Covers now millis := by
    intro millis hage
    exact covers_of_age_le (hwindow.le.trans (Nat.min_le_left _ _)) hage
  have hold : ∀ millis, t.Covers now millis → now - millis < t.windowMillis + t.tickMillis := by
    intro millis hcovers
    have hage := age_lt_of_covers hcovers
    have htick := t.tickMillis_pos
    omega
  refine ⟨?_, ?_, hcount, hyoung, hold, ?_⟩
  · rw [hcount]
    refine countWhere_le ?_ calls
    intro millis hage
    exact decide_eq_true (hyoung millis (of_decide_eq_true hage))
  · rw [hcount]
    refine countWhere_le ?_ calls
    intro millis hcovers
    exact decide_eq_true (hold millis (of_decide_eq_true hcovers))
  · intro before count millis rest hcalls hcovers
    refine update_of_covers h ?_ hcovers count
    intro call hcall
    exact hlatest call (hcalls ▸ List.mem_append_left _ hcall)

/-- Two ticks of ten milliseconds, queried nine milliseconds into a tick: of four updates out of
order one was too late, one is as old as the window, and one is older by less than a tick. -/
theorem count_within_one_tick_unaligned :
    ∃ t, ofTicks 2 (.ofMillis 10) = .ok t ∧
      (∀ call ∈ [Call.update 5 90, .update 7 69, .countAt 95, .update 3 70, .update 2 79],
        call.millis ≤ 99) ∧
      99 ≤ maxWord ∧ t.windowMillis = 20 ∧
      ((t.after [.update 5 90, .update 7 69, .countAt 95, .update 3 70, .update 2 79]).countAt 99).2
        = 10 ∧
      ((t.after []).update 5 90).2 = none := by
  obtain ⟨t, ht⟩ : ∃ t, ofTicks 2 (.ofMillis 10) = .ok t := ⟨_, rfl⟩
  have hlatest : ∀ call ∈ [Call.update 5 90, .update 7 69, .countAt 95, .update 3 70, .update 2 79],
      call.millis ≤ 99 := by decide
  have hnow : 99 ≤ maxWord := by decide
  obtain ⟨-, -, hcount, -, -, hlate⟩ := count_within_one_tick ht hlatest hnow
  cases ht
  exact ⟨_, rfl, hlatest, hnow, rfl, hcount.trans rfl, hlate [] 5 90 _ rfl (by decide)⟩

end RateTracker

end WindowedStats
