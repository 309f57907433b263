import WindowedStats.Json.Basic
import WindowedStats.Decimal.Notation

/-!
# Text of values

Values are written on one line without blanks.  In strings the quote, the backslash and the
controls are escaped, and all else is written as it is.
-/

namespace WindowedStats.Json

/-- The lower-case hexadecimal digits of `n` at four places. -/
def fourHexDigits (n : Nat) : List Char :=
  [n / 4096 % 16, n / 256 % 16, n / 16 % 16, n % 16].map Nat.digitChar

/-- The written form of one character of a string. -/
def escapedChar (c : Char) : List Char :=
  if c = '"' then ['\\', '"']
  else if c = '\\' then ['\\', '\\']
  else if c = '\n' then ['\\', 'n']
  else if c = '\r' then ['\\', 'r']
  else if c = '\t' then ['\\', 't']
  else if c = Char.ofNat 8 then ['\\', 'b']
  else if c = Char.ofNat 12 then ['\\', 'f']
  else if c.toNat < 0x20 then '\\' :: 'u' :: fourHexDigits c.toNat
  else [c]

/-- The written form of a string, with its quotes. -/
def quotedChars (s : String) : List Char := '"' :: s.toList.flatMap escapedChar ++ ['"']

mutual

/-- The characters of a value. -/
def chars : Json → List Char
  | null => ['n', 'u', 'l', 'l']
  | bool true => ['t', 'r', 'u', 'e']
  | bool false => ['f', 'a', 'l', 's', 'e']
  | int n => (toString n).toList
  | float x => if x.isFinite then (Decimal.floatText x).toList else ['n', 'u', 'l', 'l']
  | str s => quotedChars s
  | arr items => '[' :: itemChars items ++ [']']
  | obj members => '{' :: memberChars members ++ ['}']

/-- The characters of the items of an array, with commas between them. -/
def itemChars : List Json → List Char
  | [] => []
  | [v] => chars v
  | v :: w :: rest => chars v ++ ',' :: itemChars (w :: rest)

/-- The characters of the members of an object, with commas between them. -/
def memberChars : List (String × Json) → List Char
  | [] => []
  | [(k, v)] => quotedChars k ++ ':' :: chars v
  | (k, v) :: m :: rest => quotedChars k ++ ':' :: chars v ++ ',' :: memberChars (m :: rest)

end

/-- The text of a value. -/
def text (v : Json) : String := String.ofList v.chars

end WindowedStats.Json
