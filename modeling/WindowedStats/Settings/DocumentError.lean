import WindowedStats.Decimal.Notation
import WindowedStats.Json.Basic
import WindowedStats.Settings.Key
import WindowedStats.Text.Characters

/-!
# Document errors

What can be wrong with a value that should be settings.
-/

namespace WindowedStats

/-- What a value in a document should have been. -/
inductive Settings.Wanted where
  | boolean
  | duration
  | sequence
  | threshold
  | capacity
  | settings
deriving DecidableEq

/-- Why a value is not settings. -/
inductive Settings.DocumentError where
  /-- The value is of another kind. -/
  | wrongKind (found : Json) (wanted : Settings.Wanted)
  /-- The value is of the right kind and out of range. -/
  | outOfRange (found : Json) (wanted : Settings.Wanted)
  /-- There is no setting with this name. -/
  | unknownKey (name : String)
  /-- A setting is given twice. -/
  | repeatedKey (key : Settings.Key)
  /-- A list of settings is too long. -/
  | tooLong (length : Nat)

namespace Settings

/-- The words for what a value should have been. -/
def Wanted.text : Wanted → String
  | boolean => "a boolean"
  | duration => "a duration"
  | sequence => "a sequence"
  | threshold => "i64"
  | capacity => "usize"
  | settings => "struct StatsConfig"

namespace DocumentError

/-- A word or number between backticks. -/
def ticked (s : String) : String := "`" ++ s ++ "`"

/-- The words for a value that was found. -/
def foundText : Json → String
  | .null => "null"
  | .bool b => "boolean " ++ ticked (toString b)
  | .int n => "integer " ++ ticked (toString n)
  | .float x => "floating point " ++ ticked (Decimal.floatText x)
  | .str s => "string " ++ Text.quoted s
  | .arr _ => "sequence"
  | .obj _ => "map"

/-- The wording of an error. -/
def message : DocumentError → String
  | wrongKind found wanted => "invalid type: " ++ foundText found ++ ", expected " ++ wanted.text
  | outOfRange found wanted => "invalid value: " ++ foundText found ++ ", expected " ++ wanted.text
  | unknownKey name =>
    "unknown field " ++ ticked name ++ ", expected one of " ++
      ", ".intercalate (Key.all.map fun k => ticked k.name)
  | repeatedKey key => "duplicate field " ++ ticked key.name
  | tooLong length =>
    "invalid length " ++ toString length ++ ", expected fewer elements in array"

end DocumentError

end Settings

end WindowedStats
