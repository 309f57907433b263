import Mathlib.Algebra.Order.Ring.Nat
import Mathlib.Data.List.DropRight
import WindowedStats.Clock

/-!
# A clock shows the total time elapsed

A clock cuts off twice whatever leads beyond its horizon: the duration by which it is moved, and
the sum of this and the time that it shows.  Durations are much longer than the horizon of a clock
that counts nanoseconds, so both happen.

Neither can be seen in the time shown.  Once it has been cut off a clock stands at its horizon, and
no duration moves it from there, so a single cut at the end would do as well.  `nanos_after` says
this for every run of moves: the clock shows the instant that was set last plus the exact sum of
what has elapsed since, or its horizon.  Of the durations between two settings only the sum counts,
and the rounds of `drive` see the multiples of its interval.
-/

namespace WindowedStats

/-- The exact sum of some durations in nanoseconds, which may be longer than any duration. -/
def Duration.totalNanos (ds : List Duration) : Nat := (ds.map Duration.nanos).sum

namespace Duration

theorem totalNanos_append (ds es : List Duration) :
    totalNanos (ds ++ es) = totalNanos ds + totalNanos es := by
  rw [totalNanos, List.map_append, List.sum_append]
  rfl

theorem totalNanos_singleton (d : Duration) : totalNanos [d] = d.nanos := rfl

theorem totalNanos_replicate (n : Nat) (d : Duration) :
    totalNanos (List.replicate n d) = n * d.nanos := by
  rw [totalNanos, List.map_replicate, List.sum_replicate_nat]

end Duration

namespace Clock

open Duration (totalNanos)

@[ext] theorem ext {c c' : Clock} (hhorizon : c.horizon = c'.horizon) (hnow : c.now = c'.now) :
    c = c' := by
  cases c; cases c'; cases hhorizon; cases hnow; rfl

/-! ## Runs of moves -/

inductive Move where
  | elapse (d : Duration)
  | setTime (d : Duration)
deriving DecidableEq

namespace Move

/-- The instant that a move sets. -/
def set? : Move → Option Duration
  | elapse _ => none
  | setTime d => some d

/-- The duration that elapses with a move. -/
def elapsed? : Move → Option Duration
  | elapse d => some d
  | setTime _ => none

end Move

def move (c : Clock) : Move → Clock
  | .elapse d => c.elapse d
  | .setTime d => c.setTime d

def after (c : Clock) (moves : List Move) : Clock := moves.foldl move c

/-- The instant that some moves have set last, or the start. -/
def lastSet (start : Duration) (moves : List Move) : Duration :=
  (moves.filterMap Move.set?).getLastD start

/-- The durations that have elapsed since an instant was set. -/
def elapsedSince (moves : List Move) : List Duration :=
  (moves.rtakeWhile fun m => m.set?.isNone).filterMap Move.elapsed?

theorem after_append (c : Clock) (moves moves' : List Move) :
    c.after (moves ++ moves') = (c.after moves).after moves' := List.foldl_append

@[simp] theorem horizon_after (c : Clock) (moves : List Move) :
    (c.after moves).horizon = c.horizon := by
  induction moves generalizing c with
  | nil => rfl
  | cons m rest ih =>
      refine (ih (c.move m)).trans ?_
      cases m <;> rfl

theorem lastSet_concat_elapse (start : Duration) (moves : List Move) (d : Duration) :
    lastSet start (moves ++ [.elapse d]) = lastSet start moves := by
  simp [lastSet, List.filterMap_append, Move.set?]

theorem lastSet_concat_setTime (start : Duration) (moves : List Move) (d : Duration) :
    lastSet start (moves ++ [.setTime d]) = d := by
  simp [lastSet, List.filterMap_append, Move.set?]

theorem elapsedSince_concat_elapse (moves : List Move) (d : Duration) :
    elapsedSince (moves ++ [.elapse d]) = elapsedSince moves ++ [d] := by
  rw [elapsedSince, List.rtakeWhile_concat_pos _ _ _ (by simp [Move.set?]), List.filterMap_append]
  rfl

theorem elapsedSince_concat_setTime (moves : List Move) (d : Duration) :
    elapsedSince (moves ++ [.setTime d]) = [] := by
  rw [elapsedSince, List.rtakeWhile_concat_neg _ _ _ (by simp [Move.set?]), List.filterMap_nil]

theorem lastSet_append_elapses (start : Duration) (moves : List Move) (ds : List Duration) :
    lastSet start (moves ++ ds.map .elapse) = lastSet start moves := by
  induction ds using List.reverseRecOn with
  | nil => rw [List.map_nil, List.append_nil]
  | append_singleton ds d ih =>
      rw [List.map_append, ← List.append_assoc]
      exact (lastSet_concat_elapse start _ d).trans ih

theorem elapsedSince_append_elapses (moves : List Move) (ds : List Duration) :
    elapsedSince (moves ++ ds.map .elapse) = elapsedSince moves ++ ds := by
  induction ds using List.reverseRecOn with
  | nil => rw [List.map_nil, List.append_nil, List.append_nil]
  | append_singleton ds d ih =>
      rw [List.map_append, ← List.append_assoc, ← List.append_assoc, ← ih]
      exact elapsedSince_concat_elapse _ d

/-! ## The time shown -/

theorem horizon_startingAt (start : Duration) : (startingAt start).horizon.nanos = maxWord := rfl

theorem nanos_startingAt (start : Duration) :
    (startingAt start).now.nanos = min start.nanos maxWord := nanos_setTime _ start

/-- A clock that counts nanoseconds shows the instant that was set last plus the exact sum of what
has elapsed since, cut off once. -/
theorem nanos_after (start : Duration) (moves : List Move) :
    ((startingAt start).after moves).now.nanos =
      min ((lastSet start moves).nanos + totalNanos (elapsedSince moves)) maxWord := by
  induction moves using List.reverseRecOn with
  | nil => exact nanos_startingAt start
  | append_singleton moves m ih =>
      have hhorizon : ((startingAt start).after moves).horizon.nanos = maxWord := by
        rw [horizon_after, horizon_startingAt]
      rw [after_append]
      cases m with
      | elapse d =>
          show (((startingAt start).after moves).elapse d).now.nanos = _
          rw [nanos_elapse, ih, hhorizon, lastSet_concat_elapse, elapsedSince_concat_elapse,
            Duration.totalNanos_append, Duration.totalNanos_singleton]
          omega
      | setTime d =>
          show (((startingAt start).after moves).setTime d).now.nanos = _
          rw [nanos_setTime, hhorizon, lastSet_concat_setTime, elapsedSince_concat_setTime]
          rfl

/-- Runs that have set the same instant last, and after it the same time has elapsed, lead to the
same clock. -/
theorem after_eq_after {start : Duration} {moves moves' : List Move}
    (hset : lastSet start moves = lastSet start moves')
    (htotal : totalNanos (elapsedSince moves) = totalNanos (elapsedSince moves')) :
    (startingAt start).after moves = (startingAt start).after moves' := by
  refine Clock.ext ?_ (Duration.ext ?_)
  · rw [horizon_after, horizon_after]
  · rw [nanos_after, nanos_after, hset, htotal]

/-! ## Rounds -/

theorem drive_succ {σ : Type} (rounds : Nat) (interval : Duration)
    (step : Nat → Clock × σ → Clock × σ) (start : Clock × σ) :
    drive (rounds + 1) interval step start =
      ((step rounds (drive rounds interval step start)).1.elapse interval,
        (step rounds (drive rounds interval step start)).2) := by
  rw [drive, Nat.fold_succ]
  rfl

/-- If the steps do not move the clock, each of them is given the clock that only the intervals
have moved. -/
theorem drive_of_still {σ : Type} {step : Nat → Clock × σ → Clock × σ}
    (hstill : ∀ i t, (step i t).1 = t.1) (c : Clock) (interval : Duration) (rounds : Nat) (s : σ) :
    drive rounds interval step (c, s) =
      (c.after ((List.replicate rounds interval).map .elapse),
        rounds.fold
          (fun i _ s => (step i (c.after ((List.replicate i interval).map .elapse), s)).2) s) := by
  induction rounds with
  | zero => rfl
  | succ rounds ih =>
      rw [drive_succ, hstill, ih, List.replicate_succ', List.map_append, after_append,
        Nat.fold_succ]
      rfl

/-- After every run of moves the clock shows the instant that was set last, or the start, plus the
exact sum of the durations that have elapsed since, or its horizon if that is beyond it.  Of some
durations that elapse one after the other, only the exact sum matters to the clock that they leave
behind and to all its later moves: they may be split, merged and put in another order.  If the steps
of `drive` do not move the clock, then step `i` is given a clock that shows the start plus `i`
intervals, and the last clock shows the start plus all intervals, again up to the horizon. -/
theorem shows_total_elapsed (start : Duration) (moves : List Move) :
    let c := (startingAt start).after moves
    c.now.nanos =
      min ((lastSet start moves).nanos + totalNanos (elapsedSince moves)) maxWord ∧
    (∀ ds es : List Duration, totalNanos ds = totalNanos es →
      ∀ later : List Move,
        (startingAt start).after (moves ++ ds.map .elapse ++ later) =
          (startingAt start).after (moves ++ es.map .elapse ++ later)) ∧
    ∀ interval : Duration, ∃ seen : Nat → Clock,
      (∀ i, (seen i).now.nanos = min (c.now.nanos + i * interval.nanos) maxWord) ∧
      ∀ {σ : Type} (step : Nat → Clock × σ → Clock × σ), (∀ i t, (step i t).1 = t.1) →
        ∀ (rounds : Nat) (s : σ), drive rounds interval step (c, s) =
          (seen rounds, rounds.fold (fun i _ s => (step i (seen i, s)).2) s) := by
  intro c
  refine ⟨nanos_after start moves, ?_, ?_⟩
  · intro ds es hsum later
    rw [after_append, after_append _ _ later]
    refine congrArg (·.after later) (after_eq_after ?_ ?_)
    · rw [lastSet_append_elapses, lastSet_append_elapses]
    · rw [elapsedSince_append_elapses, elapsedSince_append_elapses, Duration.totalNanos_append,
        Duration.totalNanos_append, hsum]
  · intro interval
    refine ⟨fun i => c.after ((List.replicate i interval).map .elapse), ?_, ?_⟩
    · intro i
      have hnow : c.now.nanos = _ := nanos_after start moves
      show (c.after _).now.nanos = _
      rw [← after_append, nanos_after, lastSet_append_elapses, elapsedSince_append_elapses,
        Duration.totalNanos_append, Duration.totalNanos_replicate, hnow]
      omega
    · intro σ step hstill rounds s
      exact drive_of_still hstill c interval rounds s

/-- Six nanoseconds before the horizon, where a clock had been before it was set back: five of them
elapse in different parts, and the third of some rounds of four is at the horizon. -/
theorem shows_total_elapsed_near_horizon :
    let moves : List Move :=
      [.elapse .longest, .setTime (.ofNanos (maxWord - 10)), .elapse (.ofNanos 4)]
    let c := (startingAt .zero).after moves
    let parts : List Duration := [.ofNanos 2, .ofNanos 1, .ofNanos 2]
    let parts' : List Duration := [.ofNanos 1, .ofNanos 4]
    let later : List Move := [.elapse (.ofNanos 1)]
    let note : Nat → Clock × List Nat → Clock × List Nat := fun _ t =>
      (t.1, t.2 ++ [t.1.now.nanos])
    let driven := drive 3 (.ofNanos 4) note (c, [])
    c.now.nanos = maxWord - 6 ∧ totalNanos parts = totalNanos parts' ∧
      (startingAt .zero).after (moves ++ parts.map .elapse ++ later) =
        (startingAt .zero).after (moves ++ parts'.map .elapse ++ later) ∧
      (∀ i t, (note i t).1 = t.1) ∧ driven.2 = [maxWord - 6, maxWord - 2, maxWord] ∧
      driven.1.now.nanos = maxWord := by
  intro moves c parts parts' later note driven
  have hsame : totalNanos parts = totalNanos parts' := by decide
  have hstill : ∀ i t, (note i t).1 = t.1 := fun _ _ => rfl
  obtain ⟨hnow, hsplit, hdrive⟩ := shows_total_elapsed .zero moves
  have hstart : c.now.nanos = maxWord - 6 := hnow.trans (by decide)
  obtain ⟨seen, hseen, hrounds⟩ := hdrive (.ofNanos 4)
  have hdriven : driven = (seen 3, [] ++ [(seen 0).now.nanos] ++ [(seen 1).now.nanos] ++
      [(seen 2).now.nanos]) := hrounds note hstill 3 []
  have hread : ∀ i, (seen i).now.nanos = min (maxWord - 6 + i * 4) maxWord := by
    intro i
    rw [← hstart]
    exact hseen i
  refine ⟨hstart, hsame, hsplit parts parts' hsame later, hstill, ?_, ?_⟩
  · rw [hdriven, hread, hread, hread]
    rfl
  · rw [hdriven, hread]
    rfl

end Clock

end WindowedStats
