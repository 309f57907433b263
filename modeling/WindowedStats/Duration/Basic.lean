import WindowedStats.Word

/-!
# Durations

A duration is a whole number of nanoseconds whose seconds fit 64 bits.  Instants are durations
too: they count from the start of a clock.  Sums stop at the longest duration and differences stop
at zero, so arithmetic on durations is total; `nanos_add` and `nanos_sub` say exactly how.

In compact notation a duration is one decimal number and one unit: the largest of seconds,
milliseconds, microseconds and nanoseconds that the duration reaches, and the exact fraction without
trailing zeros.
-/

namespace WindowedStats

/-- The nanoseconds of a second. -/
def nanosPerSecond : Nat := 1000000000

/-- The nanoseconds of a millisecond. -/
def nanosPerMilli : Nat := 1000000

/-- The nanoseconds of a microsecond. -/
def nanosPerMicro : Nat := 1000

/-- The first number of nanoseconds that is too long for a duration. -/
def Duration.limit : Nat := 18446744073709551616000000000

/-- A length of time in whole nanoseconds, shorter than `2 ^ 64` seconds. -/
structure Duration where
  nanos : Nat
  nanos_lt : nanos < Duration.limit
deriving DecidableEq

namespace Duration

theorem limit_eq : limit = wordCount * nanosPerSecond := rfl

/-- The duration of `n` nanoseconds, or the longest duration if `n` is beyond it. -/
def ofNanos (n : Nat) : Duration :=
  ⟨min n (limit - 1), by simp only [limit]; omega⟩

/-- The longest duration. -/
def longest : Duration := ofNanos (limit - 1)

/-- The empty duration. -/
def zero : Duration := ofNanos 0

/-- The duration of `n` milliseconds. -/
def ofMillis (n : Nat) : Duration := ofNanos (n * nanosPerMilli)

/-- The duration of `n` seconds. -/
def ofSeconds (n : Nat) : Duration := ofNanos (n * nanosPerSecond)

/-- The duration of some seconds and some nanoseconds. -/
def ofParts (seconds nanos : Nat) : Duration := ofNanos (seconds * nanosPerSecond + nanos)

instance : Inhabited Duration := ⟨zero⟩

/-- Sums stop at the longest duration. -/
instance : Add Duration := ⟨fun d e => ofNanos (d.nanos + e.nanos)⟩

/-- Differences stop at zero. -/
instance : Sub Duration :=
  ⟨fun d e => ⟨d.nanos - e.nanos, Nat.lt_of_le_of_lt (Nat.sub_le _ _) d.nanos_lt⟩⟩

instance : LE Duration := ⟨fun d e => d.nanos ≤ e.nanos⟩

instance : LT Duration := ⟨fun d e => d.nanos < e.nanos⟩

instance (d e : Duration) : Decidable (d ≤ e) := inferInstanceAs (Decidable (d.nanos ≤ e.nanos))

instance (d e : Duration) : Decidable (d < e) := inferInstanceAs (Decidable (d.nanos < e.nanos))

/-- The shorter of two durations. -/
instance : Min Duration := ⟨fun d e => if d ≤ e then d else e⟩

/-- The whole seconds of a duration. -/
def seconds (d : Duration) : Nat := d.nanos / nanosPerSecond

/-- The nanoseconds beyond the whole seconds. -/
def subsecNanos (d : Duration) : Nat := d.nanos % nanosPerSecond

/-- The whole milliseconds of a duration. -/
def millis (d : Duration) : Nat := d.nanos / nanosPerMilli

/-- The whole milliseconds of an instant as a 64-bit counter shows them, which starts again at zero
after its last value. -/
def counterMillis (d : Duration) : Nat := d.millis % wordCount

/-- A duration in milliseconds as a length that can be divided into ticks: zero if it is not a whole
number of milliseconds, and at most the last value of a 64-bit counter. -/
def wholeMillis (d : Duration) : Nat :=
  if d.subsecNanos % nanosPerMilli = 0 then min d.millis maxWord else 0

/-- A duration in seconds: the floating-point sum of its whole seconds and its nanoseconds. -/
def toSeconds (d : Duration) : Float :=
  Float.ofNat d.seconds + Float.ofNat d.subsecNanos / 1e9

/-! ## Compact notation -/

/-- The digits of `n` at `places` places, without trailing zeros. -/
def fractionDigits (places n : Nat) : List Char :=
  let digits := Nat.toDigits 10 n
  let padded := List.replicate (places - digits.length) '0' ++ digits
  (padded.reverse.dropWhile (· == '0')).reverse

/-- The quotient of `n` by the power of ten with `places` zeros, as an exact decimal number. -/
def decimalText (places n : Nat) : String :=
  let whole := toString (n / Nat.pow 10 places)
  match fractionDigits places (n % Nat.pow 10 places) with
  | [] => whole
  | digits => whole ++ "." ++ String.ofList digits

/-- A duration in compact notation, such as `1.5ms`. -/
def compact (d : Duration) : String :=
  if nanosPerSecond ≤ d.nanos then decimalText 9 d.nanos ++ "s"
  else if nanosPerMilli ≤ d.nanos then decimalText 6 d.nanos ++ "ms"
  else if nanosPerMicro ≤ d.nanos then decimalText 3 d.nanos ++ "µs"
  else decimalText 0 d.nanos ++ "ns"

/-! ## What each operation does to the nanoseconds -/

@[ext] theorem ext {d e : Duration} (h : d.nanos = e.nanos) : d = e := by
  cases d; cases e; cases h; rfl

@[simp] theorem nanos_ofNanos (n : Nat) : (ofNanos n).nanos = min n (limit - 1) := rfl

theorem nanos_le (d : Duration) : d.nanos ≤ limit - 1 := by
  have := d.nanos_lt
  omega

@[simp] theorem nanos_zero : zero.nanos = 0 := rfl

@[simp] theorem nanos_add (d e : Duration) : (d + e).nanos = min (d.nanos + e.nanos) (limit - 1) :=
  rfl

@[simp] theorem nanos_sub (d e : Duration) : (d - e).nanos = d.nanos - e.nanos := rfl

theorem le_def {d e : Duration} : d ≤ e ↔ d.nanos ≤ e.nanos := Iff.rfl

theorem lt_def {d e : Duration} : d < e ↔ d.nanos < e.nanos := Iff.rfl

@[simp] theorem nanos_min (d e : Duration) : (min d e).nanos = min d.nanos e.nanos := by
  show (if d ≤ e then d else e).nanos = _
  rw [Nat.min_def]
  split <;> split <;> simp_all [le_def]

@[simp] theorem ofNanos_nanos (d : Duration) : ofNanos d.nanos = d :=
  Duration.ext (Nat.min_eq_left d.nanos_le)

end Duration

end WindowedStats
