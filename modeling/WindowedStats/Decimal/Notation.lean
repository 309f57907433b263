import WindowedStats.Decimal.Shortest

/-!
# Decimal notation of floating-point numbers

The shortest decimal of a number is written with a point if at most sixteen digits stand before the
point, or at most four zeros between the point and the first digit.  Otherwise it is written with an
exponent of ten, which always has a sign.
-/

namespace WindowedStats.Decimal

/-- The greatest number of digits before the point. -/
def mostWhole : Int := 16

/-- The greatest number of zeros between the point and the first digit. -/
def mostZeros : Int := 4

/-- An exponent of ten with its sign. -/
def exponentText (exponent : Int) : String :=
  (if 0 ≤ exponent then "e+" else "e-") ++ toString exponent.natAbs

/-- The decimal `digits * 10 ^ exponent` with a point or an exponent. -/
def digitsText (digits : Nat) (exponent : Int) : String :=
  let ds := Nat.toDigits 10 digits
  let point : Int := ds.length + exponent
  if 0 ≤ exponent && point ≤ mostWhole then
    String.ofList (ds ++ List.replicate exponent.toNat '0') ++ ".0"
  else if 0 < point && point ≤ mostWhole then
    String.ofList (ds.take point.toNat ++ '.' :: ds.drop point.toNat)
  else if -mostZeros ≤ point && point ≤ 0 then
    String.ofList ('0' :: '.' :: List.replicate (-point).toNat '0' ++ ds)
  else
    let mantissa := match ds with
      | d :: e :: rest => d :: '.' :: e :: rest
      | short => short
    String.ofList mantissa ++ exponentText (point - 1)

/-- The notation of a finite number. -/
def floatText (x : Float) : String :=
  let sign := if signWeight ≤ x.toBits.toNat then "-" else ""
  let b := Binary.ofFloat x
  if b.significand = 0 then sign ++ "0.0"
  else sign ++ digitsText b.shortest.1 b.shortest.2

end WindowedStats.Decimal
