import WindowedStats.Json.Numeral

/-!
# Reading values

Reading is a left fold over the characters of a text.  Its state has two parts: the scanner keeps
the token that is being read, and the builder keeps the arrays and objects that are still open.  A
character either moves the scanner within a token or ends the token, which then goes to the builder.

A text is refused for one of two reasons: it ends too early, or it cannot be continued to a value.
-/

namespace WindowedStats.Json

/-- Why a text is not a value. -/
inductive Fault where
  | unfinished
  | malformed
deriving DecidableEq

/-- The units of which a text consists. -/
inductive Token where
  | leaf (v : Json)
  | openArr
  | closeArr
  | openObj
  | closeObj
  | comma
  | colon

/-! ## The builder -/

/-- An array or object that is still open, with its finished parts in reverse order; in an object,
with the key whose value is due. -/
inductive Frame where
  | arr (done : List Json)
  | obj (done : List (String × Json)) (key : String)

/-- What is due next, with the frames around it, innermost first. -/
inductive Builder where
  /-- A value is due. -/
  | value (outer : List Frame)
  /-- The first item of an array is due, or its end. -/
  | firstItem (outer : List Frame)
  /-- The first key of an object is due, or its end. -/
  | firstKey (outer : List Frame)
  /-- Another key is due. -/
  | key (done : List (String × Json)) (outer : List Frame)
  /-- The colon after a key is due. -/
  | colon (done : List (String × Json)) (key : String) (outer : List Frame)
  /-- A value is finished. -/
  | after (v : Json) (outer : List Frame)

namespace Builder

/-- Takes a token where a value is due. -/
def beginValue (outer : List Frame) : Token → Option Builder
  | .leaf v => some (.after v outer)
  | .openArr => some (.firstItem outer)
  | .openObj => some (.firstKey outer)
  | _ => none

/-- Takes a token where a key is due. -/
def beginKey (done : List (String × Json)) (outer : List Frame) : Token → Option Builder
  | .leaf (.str k) => some (.colon done k outer)
  | _ => none

/-- Takes one token, if it can follow. -/
def step? : Builder → Token → Option Builder
  | .value outer, t => beginValue outer t
  | .firstItem outer, .closeArr => some (.after (.arr []) outer)
  | .firstItem outer, t => beginValue (.arr [] :: outer) t
  | .firstKey outer, .closeObj => some (.after (.obj []) outer)
  | .firstKey outer, t => beginKey [] outer t
  | .key done outer, t => beginKey done outer t
  | .colon done k outer, .colon => some (.value (.obj done k :: outer))
  | .after v (.arr done :: outer), .comma => some (.value (.arr (v :: done) :: outer))
  | .after v (.arr done :: outer), .closeArr => some (.after (.arr (v :: done).reverse) outer)
  | .after v (.obj done k :: outer), .comma => some (.key ((k, v) :: done) outer)
  | .after v (.obj done k :: outer), .closeObj =>
    some (.after (.obj ((k, v) :: done).reverse) outer)
  | _, _ => none

/-- The value, if it is finished and nothing around it is open. -/
def result? : Builder → Option Json
  | .after v [] => some v
  | _ => none

end Builder

/-! ## The scanner -/

/-- The number with four hexadecimal digits that is being read after `\u`: the bytes seen so far,
their value, and whether all were digits. -/
structure HexNumber where
  bytes : Nat
  value : Nat
  sound : Bool

/-- The value of a hexadecimal digit. -/
def hexValue? (c : Char) : Option Nat :=
  if c.isDigit then some (c.toNat - '0'.toNat)
  else if 'a' ≤ c && c ≤ 'f' then some (c.toNat - 'a'.toNat + 10)
  else if 'A' ≤ c && c ≤ 'F' then some (c.toNat - 'A'.toNat + 10)
  else none

/-- Takes one more character. -/
def HexNumber.push (h : HexNumber) (c : Char) : HexNumber :=
  match hexValue? c with
  | some d => ⟨h.bytes + 1, h.value * 16 + d, h.sound⟩
  | none => ⟨h.bytes + c.utf8Size, h.value, false⟩

/-- Where the scanner stands.  The characters of a string stand in reverse order; a leading
surrogate waits for the trailing one. -/
inductive Scan where
  /-- Outside all tokens. -/
  | between
  /-- Within a word; `due` is still to come. -/
  | word (due : List Char) (v : Json)
  | number (n : Numeral)
  /-- Within a string. -/
  | string (done : List Char)
  /-- After a backslash. -/
  | escape (done : List Char)
  /-- After `\u`. -/
  | hex (done : List Char) (lead : Option Nat) (h : HexNumber)
  /-- After a leading surrogate. -/
  | surrogate (done : List Char) (lead : Nat)
  /-- After a leading surrogate and a backslash. -/
  | surrogateEscape (done : List Char) (lead : Nat)

/-- The characters that may stand between tokens. -/
def isSpace (c : Char) : Bool := c = ' ' || c = '\n' || c = '\t' || c = '\r'

/-- The character that an escape of two characters stands for. -/
def unescaped? : Char → Option Char
  | '"' => some '"'
  | '\\' => some '\\'
  | '/' => some '/'
  | 'b' => some (Char.ofNat 8)
  | 'f' => some (Char.ofNat 12)
  | 'n' => some '\n'
  | 'r' => some '\r'
  | 't' => some '\t'
  | _ => none

/-- The scanner after the number `code` of an escape; a surrogate counts only in a pair. -/
def Scan.afterHex? (done : List Char) (lead : Option Nat) (code : Nat) : Option Scan :=
  let leading := 0xd800 ≤ code && code < 0xdc00
  let trailing := 0xdc00 ≤ code && code < 0xe000
  match lead with
  | none =>
    if trailing then none
    else if leading then some (.surrogate done code)
    else some (.string (Char.ofNat code :: done))
  | some first =>
    if trailing then
      some (.string (Char.ofNat ((first - 0xd800) * 0x400 + (code - 0xdc00) + 0x10000) :: done))
    else none

/-! ## The reader -/

/-- The scanner and the builder. -/
structure Reader where
  scan : Scan
  builder : Builder

namespace Reader

/-- The reader before the first character. -/
def start : Reader := ⟨.between, .value []⟩

/-- Hands a finished token to the builder. -/
def emit (r : Reader) (t : Token) : Except Fault Reader :=
  match r.builder.step? t with
  | some b => .ok ⟨.between, b⟩
  | none => .error .malformed

/-- Hands a finished numeral to the builder. -/
def emitNumeral (r : Reader) (n : Numeral) : Except Fault Reader :=
  match n.isFinished, n.value? with
  | true, some v => r.emit (.leaf v)
  | _, _ => .error .malformed

/-- Takes a character outside all tokens. -/
def begin (r : Reader) (c : Char) : Except Fault Reader :=
  match c with
  | '[' => r.emit .openArr
  | ']' => r.emit .closeArr
  | '{' => r.emit .openObj
  | '}' => r.emit .closeObj
  | ',' => r.emit .comma
  | ':' => r.emit .colon
  | '"' => .ok { r with scan := .string [] }
  | 't' => .ok { r with scan := .word ['r', 'u', 'e'] (.bool true) }
  | 'f' => .ok { r with scan := .word ['a', 'l', 's', 'e'] (.bool false) }
  | 'n' => .ok { r with scan := .word ['u', 'l', 'l'] .null }
  | '-' => .ok { r with scan := .number .negated }
  | c =>
    if isSpace c then .ok r
    else match Numeral.start.push? c with
      | some n => .ok { r with scan := .number n }
      | none => .error .malformed

/-- Moves the scanner within a token, if the character can follow. -/
def go (r : Reader) : Option Scan → Except Fault Reader
  | some s => .ok { r with scan := s }
  | none => .error .malformed

/-- Takes one character. -/
def step (r : Reader) (c : Char) : Except Fault Reader :=
  match r.scan with
  | .between => r.begin c
  | .word due v =>
    match due with
    | [] => .error .malformed
    | [d] => if c = d then r.emit (.leaf v) else .error .malformed
    | d :: rest => r.go (if c = d then some (.word rest v) else none)
  | .number n =>
    match n.push? c with
    | some n => .ok { r with scan := .number n }
    | none => if c.isDigit then .error .malformed else do (← r.emitNumeral n).begin c
  | .string done =>
    if c = '"' then r.emit (.leaf (.str (String.ofList done.reverse)))
    else if c = '\\' then .ok { r with scan := .escape done }
    else r.go (if c.toNat < 0x20 then none else some (.string (c :: done)))
  | .escape done =>
    if c = 'u' then .ok { r with scan := .hex done none ⟨0, 0, true⟩ }
    else r.go ((unescaped? c).map fun c => .string (c :: done))
  | .hex done lead h =>
    let h := h.push c
    if h.bytes < 4 then .ok { r with scan := .hex done lead h }
    else r.go (if h.sound then Scan.afterHex? done lead h.value else none)
  | .surrogate done lead => r.go (if c = '\\' then some (.surrogateEscape done lead) else none)
  | .surrogateEscape done lead =>
    r.go (if c = 'u' then some (.hex done (some lead) ⟨0, 0, true⟩) else none)

/-- Ends the text within a token that the value `sample` stands for: if no such token could stand
here, that comes first. -/
def cutOff (r : Reader) (sample : Json) : Fault :=
  match r.builder.step? (.leaf sample) with
  | some _ => .unfinished
  | none => .malformed

/-- The value, if nothing is open. -/
def result (r : Reader) : Except Fault Json :=
  match r.builder.result? with
  | some v => .ok v
  | none => .error .unfinished

/-- The builder at the end of a token: a numeral is handed over, if it can end. -/
def settled (r : Reader) : Builder :=
  match r.scan with
  | .number n =>
    match r.emitNumeral n with
    | .ok next => next.builder
    | .error _ => r.builder
  | _ => r.builder

/-- The builder before the first character that cannot follow, or else at the end of the text.  A
numeral ends there, unless a digit follows. -/
def builderAtFault (r : Reader) : List Char → Builder
  | [] => r.settled
  | c :: rest =>
    match r.step c with
    | .ok next => next.builderAtFault rest
    | .error _ => if c.isDigit then r.builder else r.settled

/-- Ends the text. -/
def finish (r : Reader) : Except Fault Json :=
  match r.scan with
  | .between => r.result
  | .number n => if n.isFinished then do (← r.emitNumeral n).result else .error (r.cutOff .null)
  | .word _ v => .error (r.cutOff v)
  | _ => .error (r.cutOff (.str ""))

end Reader

/-- Reads a text that consists of one value. -/
def ofText (text : String) : Except Fault Json := do
  (← text.toList.foldlM Reader.step Reader.start).finish

/-- What a text that is not a value has built before it goes wrong. -/
def begun (text : String) : Builder := Reader.start.builderAtFault text.toList

end WindowedStats.Json
