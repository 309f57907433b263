import WindowedStats.Json.Basic
import WindowedStats.Word

/-!
# Numerals

A numeral has an optional minus sign, a whole part without needless zeros, and optionally a
fraction and an exponent of ten.  It grows character by character; `value?` is the number that a
finished numeral stands for.

A numeral without fraction and exponent is a whole number as far as 64 bits reach; minus zero and
everything else is a floating-point number.  Of the digits only the leading ones that fit 64 bits
count; the power of ten is applied to them in floating-point arithmetic.
-/

namespace WindowedStats.Json

/-- The part of a numeral that was read last. -/
inductive Numeral.Part where
  | sign
  | zero
  | whole
  | point
  | fraction
  | exponentMark
  | exponentSign
  | exponent
deriving DecidableEq

/-- A numeral that is being read.  The digits of each part stand in reverse order. -/
structure Numeral where
  last : Numeral.Part
  negative : Bool
  whole : List Char
  fraction : List Char
  exponentNegative : Bool
  exponent : List Char

namespace Numeral

/-- The numeral before its first character. -/
def start : Numeral := ⟨.sign, false, [], [], false, []⟩

/-- The numeral after a minus sign. -/
def negated : Numeral := { start with negative := true }

/-- Extends a numeral by one character, if the character can follow. -/
def push? (n : Numeral) (c : Char) : Option Numeral :=
  let mark := c = 'e' || c = 'E'
  match n.last with
  | .sign =>
    if c = '0' then some { n with last := .zero, whole := [c] }
    else if c.isDigit then some { n with last := .whole, whole := [c] }
    else none
  | .zero =>
    if c = '.' then some { n with last := .point }
    else if mark then some { n with last := .exponentMark }
    else none
  | .whole =>
    if c.isDigit then some { n with whole := c :: n.whole }
    else if c = '.' then some { n with last := .point }
    else if mark then some { n with last := .exponentMark }
    else none
  | .point => if c.isDigit then some { n with last := .fraction, fraction := [c] } else none
  | .fraction =>
    if c.isDigit then some { n with fraction := c :: n.fraction }
    else if mark then some { n with last := .exponentMark }
    else none
  | .exponentMark =>
    if c = '+' then some { n with last := .exponentSign }
    else if c = '-' then some { n with last := .exponentSign, exponentNegative := true }
    else if c.isDigit then some { n with last := .exponent, exponent := [c] }
    else none
  | .exponentSign => if c.isDigit then some { n with last := .exponent, exponent := [c] } else none
  | .exponent => if c.isDigit then some { n with exponent := c :: n.exponent } else none

/-- Whether the numeral can end here. -/
def isFinished (n : Numeral) : Bool :=
  match n.last with
  | .zero | .whole | .fraction | .exponent => true
  | .sign | .point | .exponentMark | .exponentSign => false

/-- The number that a list of digits stands for. -/
def digitsValue (digits : List Char) : Nat := Nat.ofDigitChars 10 digits 0

/-- Leading digits that fit 64 bits, and the power of ten that they still have to be raised by. -/
structure Leading where
  digits : Nat
  exponent : Int
  full : Bool

/-- Takes one more digit of the whole part: a digit that does not fit counts as a factor of ten, and
so do all after it. -/
def Leading.pushWhole (l : Leading) (c : Char) : Leading :=
  let next := l.digits * 10 + digitsValue [c]
  if !l.full && next < wordCount then { l with digits := next }
  else { l with exponent := l.exponent + 1, full := true }

/-- Takes one more digit of the fraction: a digit that does not fit is dropped, and so are all after
it. -/
def Leading.pushFraction (l : Leading) (c : Char) : Leading :=
  let next := l.digits * 10 + digitsValue [c]
  if !l.full && next < wordCount then { l with digits := next, exponent := l.exponent - 1 }
  else { l with full := true }

/-- The leading digits of a numeral and their power of ten, its exponent not counted. -/
def leading (n : Numeral) : Leading :=
  let whole := n.whole.reverse.foldl Leading.pushWhole ⟨0, 0, false⟩
  n.fraction.reverse.foldl Leading.pushFraction { whole with full := false }

/-- Ten to the power `k`, as a floating-point number. -/
def tenTo (k : Nat) : Float := Float.ofScientific 1 false k

/-- Divides by ten to the power `k`, in steps of at most 308 places. -/
def divideByTenTo (x : Float) (k : Nat) : Float :=
  if k ≤ 308 then x / tenTo k
  else if x == 0 then x
  else divideByTenTo (x / tenTo 308) (k - 308)
termination_by k

/-- The product of `x` and a power of ten, if it is finite. -/
def scale? (x : Float) (exponent : Int) : Option Float :=
  if exponent < 0 then some (divideByTenTo x (-exponent).toNat)
  else if exponent ≤ 308 then
    let y := x * tenTo exponent.toNat
    if y.isFinite then some y else none
  else if x == 0 then some x
  else none

/-- The floating-point number that a numeral stands for, if it is finite. -/
def float? (n : Numeral) : Option Float :=
  let l := n.leading
  let written : Int := digitsValue n.exponent.reverse
  let exponent := l.exponent + if n.exponentNegative then -written else written
  (scale? (Float.ofNat l.digits) exponent).map fun x => if n.negative then -x else x

/-- The whole number that a numeral stands for, if it is written as one and fits 64 bits. -/
def int? (n : Numeral) : Option Int :=
  if n.last = .zero || n.last = .whole then
    let k : Int := digitsValue n.whole.reverse
    if n.negative then if leastSigned ≤ -k && -k < 0 then some (-k) else none
    else if k ≤ maxWord then some k else none
  else none

/-- The number that a numeral stands for, if it is in range. -/
def value? (n : Numeral) : Option Json :=
  match n.int? with
  | some k => some (.int k)
  | none => n.float?.map .float

end Numeral

end WindowedStats.Json
