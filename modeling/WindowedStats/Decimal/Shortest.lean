/-!
# The shortest decimal of a floating-point number

A finite number other than zero is a significand times a power of two.  Every real between its two
halfway points rounds to it; the halfway points themselves do so when the significand is even.  The
shortest decimal is the one on the coarsest decimal grid that meets this interval; of two points of
that grid the nearer one, and of two equally near ones the even one.
-/

namespace WindowedStats.Decimal

/-- A positive number `significand * 2 ^ exponent`.  `narrow` says that its lower neighbour is only
half as far away as its upper one. -/
structure Binary where
  significand : Nat
  exponent : Int
  narrow : Bool

/-- The weight of the sign bit, above all other bits of a number. -/
def signWeight : Nat := 9223372036854775808

/-- The number of fractions that a significand can have, which is two to the power 52. -/
def fractionCount : Nat := 4503599627370496

/-- The absolute value of a finite number. -/
def Binary.ofFloat (x : Float) : Binary :=
  let bits : Nat := x.toBits.toNat % signWeight
  let biased : Nat := bits / fractionCount
  let fraction : Nat := bits % fractionCount
  if biased = 0 then ⟨fraction, -1074, false⟩
  else ⟨fractionCount + fraction, (biased : Int) - 1075, fraction = 0 && 1 < biased⟩

/-- The ratio `2 ^ q / 10 ^ k` as a numerator and a denominator. -/
def gridRatio (q k : Int) : Nat × Nat :=
  (Nat.pow 2 q.toNat * Nat.pow 10 (-k).toNat, Nat.pow 2 (-q).toNat * Nat.pow 10 k.toNat)

/-- The multiple of `10 ^ k` that stands for `b`, if some multiple rounds to `b`. -/
def Binary.onGrid? (b : Binary) (k : Int) : Option Nat :=
  let (num, den) := gridRatio b.exponent k
  -- Four times the number and its halfway points, in units of `10 ^ k / den`.
  let value := 4 * b.significand * num
  let lower := value - (if b.narrow then num else 2 * num)
  let upper := value + 2 * num
  let inside (c : Nat) : Bool :=
    let x := 4 * c * den
    if b.significand % 2 = 0 then lower ≤ x && x ≤ upper else lower < x && x < upper
  let below := value / (4 * den)
  let above := below + 1
  let toBelow := value - 4 * below * den
  let toAbove := 4 * above * den - value
  match inside below, inside above with
  | false, false => none
  | true, false => some below
  | false, true => some above
  | true, true =>
    if toBelow < toAbove || (toBelow = toAbove && below % 2 = 0) then some below else some above

/-- The exponents of ten of all grids that can hold the shortest decimal, coarsest first. -/
def gridExponents : List Int := (List.range 640).map fun (i : Nat) => 310 - (i : Int)

/-- The shortest decimal `digits * 10 ^ exponent` of a positive number. -/
def Binary.shortest (b : Binary) : Nat × Int :=
  (gridExponents.findSome? fun k => (b.onGrid? k).map fun digits => (digits, k)).getD (0, 0)

end WindowedStats.Decimal
