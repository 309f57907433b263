import WindowedStats.Duration.Basic

/-!
# Clocks

A clock shows the time since its own start and moves only when it is told to.  Its horizon is the
last instant that it can show: whatever would lead beyond the horizon stops there.  `drive` runs a
number of rounds with a fixed interval after each.

`nanos_elapse` and `nanos_setTime` say what a move does to the time shown.
-/

namespace WindowedStats

/-- A clock that moves only when it is told to, never past its horizon. -/
structure Clock where
  horizon : Duration
  now : Duration
deriving DecidableEq

namespace Clock

/-- The instant nearest to `d` that the clock can show. -/
def clamp (c : Clock) (d : Duration) : Duration := min d c.horizon

/-- Moves the clock forward by `d`. -/
def elapse (c : Clock) (d : Duration) : Clock := { c with now := c.clamp (c.now + c.clamp d) }

/-- Moves the clock to the instant `d`, which may lie before the one it shows. -/
def setTime (c : Clock) (d : Duration) : Clock := { c with now := c.clamp d }

/-- The time shown, in whole milliseconds on a 64-bit counter. -/
def nowMillis (c : Clock) : Nat := c.now.counterMillis

/-- A clock that counts nanoseconds in 64 bits, at the instant `start`. -/
def startingAt (start : Duration) : Clock :=
  setTime ⟨Duration.ofNanos maxWord, Duration.zero⟩ start

/-- A clock that can show every duration, at the instant `start`. -/
def boundless (start : Duration) : Clock := setTime ⟨Duration.longest, Duration.zero⟩ start

/-- Runs the rounds `0, 1, …` of `step` on the clock and a state, and moves the clock forward by
`interval` after each round. -/
def drive {σ : Type} (rounds : Nat) (interval : Duration) (step : Nat → Clock × σ → Clock × σ)
    (start : Clock × σ) : Clock × σ :=
  rounds.fold (fun i _ s => ((step i s).1.elapse interval, (step i s).2)) start

/-- The clock and its time in compact notation. -/
def describe (c : Clock) : String :=
  "ManualClock \x7b now: " ++ c.now.compact ++ " \x7d"

/-! ## What a move does to the time shown -/

@[simp] theorem nanos_clamp (c : Clock) (d : Duration) :
    (c.clamp d).nanos = min d.nanos c.horizon.nanos := Duration.nanos_min _ _

@[simp] theorem horizon_elapse (c : Clock) (d : Duration) : (c.elapse d).horizon = c.horizon := rfl

@[simp] theorem horizon_setTime (c : Clock) (d : Duration) : (c.setTime d).horizon = c.horizon :=
  rfl

theorem nanos_setTime (c : Clock) (d : Duration) :
    (c.setTime d).now.nanos = min d.nanos c.horizon.nanos := nanos_clamp c d

theorem nanos_elapse (c : Clock) (d : Duration) :
    (c.elapse d).now.nanos = min (c.now.nanos + d.nanos) c.horizon.nanos := by
  have h := c.horizon.nanos_le
  simp only [elapse, nanos_clamp, Duration.nanos_add]
  omega

end Clock

end WindowedStats
