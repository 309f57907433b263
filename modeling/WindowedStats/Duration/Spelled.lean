import WindowedStats.Duration.TimeUnit
import WindowedStats.Text.Characters

/-!
# Spelled notation

A duration is spelled as numbers with units, such as `1h 30m`; the spans add up.  `spelled` writes
each unit at most once, longest first.  `ofSpelled?` reads any sequence of spans: blanks may stand
before a number, between its digits and before its unit, and a span ends at a blank or at the digit
of the next one.

Numbers have to fit 64 bits, counted in the grain of their unit, and a fraction has to be a whole
number of grains.
-/

namespace WindowedStats.Duration

/-! ## Writing -/

/-- A span of a unit whose name takes an `s` when there are several. -/
def pluralSpan (name : String) (n : Nat) : List String :=
  if n = 0 then [] else [toString n ++ name ++ (if 1 < n then "s" else "")]

/-- A span of a unit with a symbol. -/
def symbolSpan (symbol : String) (n : Nat) : List String :=
  if n = 0 then [] else [toString n ++ symbol]

/-- The spans of a duration, longest unit first. -/
def spans (d : Duration) : List String :=
  let inYear := d.seconds % 31557600
  let inMonth := inYear % 2630016
  let inDay := inMonth % 86400
  pluralSpan "year" (d.seconds / 31557600) ++
  pluralSpan "month" (inYear / 2630016) ++
  pluralSpan "day" (inMonth / 86400) ++
  symbolSpan "h" (inDay / 3600) ++
  symbolSpan "m" (inDay % 3600 / 60) ++
  symbolSpan "s" (inDay % 60) ++
  symbolSpan "ms" (d.subsecNanos / nanosPerMilli) ++
  symbolSpan "us" (d.subsecNanos / nanosPerMicro % 1000) ++
  symbolSpan "ns" (d.subsecNanos % nanosPerMicro)

/-- A duration in spelled notation. -/
def spelled (d : Duration) : String :=
  if d = zero then "0s" else " ".intercalate d.spans

/-! ## Spans -/

/-- A number with a unit.  A fraction is a numerator over a power of ten. -/
structure Span where
  whole : Nat
  fraction : Option (Nat × Nat)
  unit : TimeUnit

/-- The number `n`, if it fits 64 bits. -/
def fit? (n : Nat) : Option Nat := if n < wordCount then some n else none

/-- `d` together with `n` grains: the seconds have to fit 64 bits, and so do the nanoseconds that
are counted with those that `d` has beyond its seconds. -/
def plus? (d : Duration) (n grain : Nat) : Option Duration :=
  let total := d.nanos + n * grain
  if h : total < limit then
    if grain = 1 && wordCount ≤ d.subsecNanos + n then none else some ⟨total, h⟩
  else none

/-- `d` together with the whole part of a span. -/
def plusWhole? (d : Duration) (n : Nat) (u : TimeUnit) : Option Duration := do
  d.plus? (← fit? (n * (u.nanos / u.grain))) u.grain

/-- `d` together with the fraction of a span. -/
def plusFraction? (d : Duration) (numerator denominator : Nat) (u : TimeUnit) :
    Option Duration := do
  let grain ← u.fractionGrain?
  let product ← fit? (numerator * (u.nanos / grain))
  if product % denominator = 0 then d.plus? (product / denominator) grain else none

/-- `d` together with a span. -/
def plusSpan? (d : Duration) (s : Span) : Option Duration := do
  let d ← d.plusWhole? s.whole s.unit
  match s.fraction with
  | none => some d
  | some (numerator, denominator) => d.plusFraction? numerator denominator s.unit

/-! ## Reading -/

/-- Where the reader of spans stands. -/
inductive SpanReader where
  /-- A number is due. -/
  | number
  /-- Within the whole part of a number. -/
  | whole (n : Nat)
  /-- Within the fraction of a number. -/
  | fraction (n numerator denominator : Nat)
  /-- Within a unit; its letters stand in reverse order. -/
  | unit (n : Nat) (fraction : Option (Nat × Nat)) (letters : List Char)

/-- Whether a character can stand in a unit. -/
def isUnitLetter (c : Char) : Bool := c.isAlpha || c = 'µ'

/-- The value of a digit. -/
def digitValue (c : Char) : Nat := c.toNat - '0'.toNat

namespace SpanReader

/-- The spans that end here: one if the reader is within a unit, none if a number is due. -/
def ending? : SpanReader → Option (List Span)
  | number => some []
  | unit n part letters =>
    (TimeUnit.ofWord? (String.ofList letters.reverse)).map fun u => [⟨n, part, u⟩]
  | _ => none

/-- Takes one more character; also gives the spans that it ends. -/
def step? (r : SpanReader) (c : Char) : Option (SpanReader × List Span) :=
  match r with
  | number =>
    if c.isDigit then some (whole (digitValue c), [])
    else if Text.isBlank c then some (number, [])
    else none
  | whole n =>
    if c.isDigit then (fit? (n * 10 + digitValue c)).map (whole ·, [])
    else if Text.isBlank c then some (whole n, [])
    else if isUnitLetter c then some (unit n none [c], [])
    else if c = '.' then some (fraction n 0 1, [])
    else none
  | fraction n numerator denominator =>
    if c.isDigit then do
      some (fraction n (← fit? (numerator * 10 + digitValue c)) (← fit? (denominator * 10)), [])
    else if Text.isBlank c then some (fraction n numerator denominator, [])
    else if isUnitLetter c && 1 < denominator then
      some (unit n (some (numerator, denominator)) [c], [])
    else none
  | unit n part letters =>
    if isUnitLetter c then some (unit n part (c :: letters), [])
    else if c.isDigit then r.ending?.map (whole (digitValue c), ·)
    else if Text.isBlank c then r.ending?.map (number, ·)
    else none

/-- The spans of a text, if it consists of spans. -/
def spans? : SpanReader → List Char → Option (List Span)
  | r, [] => r.ending?
  | r, c :: rest => do
    let (next, ended) ← r.step? c
    return ended ++ (← spans? next rest)

end SpanReader

/-- The duration that a text spells.  Zero needs no unit, and there is no empty spelling. -/
def ofSpelled? (text : String) : Option Duration :=
  if text = "0" then some zero
  else match SpanReader.spans? .number text.toList with
    | none | some [] => none
    | some spans => spans.foldlM plusSpan? zero

end WindowedStats.Duration
