import WindowedStats.Duration.Spelled
import WindowedStats.Json.Reader
import WindowedStats.Json.Writer
import WindowedStats.Settings.Basic
import WindowedStats.Settings.DocumentError

/-!
# Settings as documents

Settings are written as an object with all six settings.  They are read from an object with any of
them, each at most once, or from a list of the first few in their order; what is not given keeps its
default.  Reading does not validate.
-/

namespace WindowedStats.Settings

/-! ## Writing -/

/-- The settings as an object. -/
def toJson (s : Settings) : Json :=
  .obj [
    (Key.localStats.name, .bool s.localStats),
    (Key.trackWaitTimes.name, .bool s.trackWaitTimes),
    (Key.trackRates.name, .bool s.trackRates),
    (Key.rateWindow.name, .str s.rateWindow.spelled),
    (Key.waitThresholds.name, .arr (s.waitThresholds.map fun t => .int t.toInt)),
    (Key.capacityCap.name, .ofNat s.capacityCap.toNat)]

/-- The text of the settings. -/
def toText (s : Settings) : String := s.toJson.text

/-! ## Reading one setting -/

/-- A truth value. -/
def readBool : Json → Except DocumentError Bool
  | .bool b => .ok b
  | v => .error (.wrongKind v .boolean)

/-- A duration in spelled notation. -/
def readDuration : Json → Except DocumentError Duration
  | .str s =>
    match Duration.ofSpelled? s with
    | some d => .ok d
    | none => .error (.outOfRange (.str s) .duration)
  | v => .error (.wrongKind v .duration)

/-- A signed number of 64 bits. -/
def readThreshold : Json → Except DocumentError Int64
  | .int n =>
    if leastSigned ≤ n && n ≤ greatestSigned then .ok (Int64.ofInt n)
    else .error (.outOfRange (.int n) .threshold)
  | v => .error (.wrongKind v .threshold)

/-- A list of signed numbers. -/
def readThresholds : Json → Except DocumentError (List Int64)
  | .arr items => items.mapM readThreshold
  | v => .error (.wrongKind v .sequence)

/-- An unsigned number of 64 bits. -/
def readCapacity : Json → Except DocumentError UInt64
  | .int n =>
    if 0 ≤ n && n ≤ maxWord then .ok (UInt64.ofNat n.toNat)
    else .error (.outOfRange (.int n) .capacity)
  | v => .error (.wrongKind v .capacity)

/-- Changes one setting to what a value says. -/
def assign (s : Settings) (key : Key) (v : Json) : Except DocumentError Settings :=
  match key with
  | .localStats => return { s with localStats := ← readBool v }
  | .trackWaitTimes => return { s with trackWaitTimes := ← readBool v }
  | .trackRates => return { s with trackRates := ← readBool v }
  | .rateWindow => return { s with rateWindow := ← readDuration v }
  | .waitThresholds => return { s with waitThresholds := ← readThresholds v }
  | .capacityCap => return { s with capacityCap := ← readCapacity v }

/-! ## Reading all settings -/

/-- Changes the settings that an object names; `seen` were named before. -/
def assignMembers (s : Settings) (seen : List Key) :
    List (String × Json) → Except DocumentError Settings
  | [] => .ok s
  | (name, v) :: rest =>
    match Key.ofName? name with
    | none => .error (.unknownKey name)
    | some key =>
      if key ∈ seen then .error (.repeatedKey key)
      else do (← s.assign key v).assignMembers (key :: seen) rest

/-- Changes the settings with the given keys, in order, to what the items of a list say. -/
def assignItems (s : Settings) : List Key → List Json → Except DocumentError Settings
  | key :: keys, v :: rest => do (← s.assign key v).assignItems keys rest
  | _, _ => .ok s

/-- The settings that a value stands for. -/
def ofJson : Json → Except DocumentError Settings
  | .obj members => standard.assignMembers [] members
  | .arr items => do
    let s ← standard.assignItems Key.all items
    if Key.all.length < items.length then throw (.tooLong items.length)
    return s
  | v => .error (.wrongKind v .settings)

/-! ## Reading a text

A text is read from the left, and the first place where it goes wrong decides.  If it is not a
value, the part before that place may already exclude settings; to find out, this part is completed
with what is due there.
-/

/-- A value for a setting. -/
def sample (key : Key) : Json := (standard.toJson.get? key.name).getD .null

/-- A value that can stand within the given open arrays and objects, innermost first, if any can. -/
def due : List Json.Frame → Json
  | [] => .obj []
  | .obj _ name :: _ => ((Key.ofName? name).map sample).getD .null
  | [.arr done] => (Key.all[done.length]?.map sample).getD .null
  | .arr _ :: _ => .int 0

/-- A value within the given arrays and objects, all closed after it. -/
def enclosed (v : Json) : List Json.Frame → Json
  | [] => v
  | .arr done :: outer => enclosed (.arr (v :: done).reverse) outer
  | .obj done name :: outer => enclosed (.obj ((name, v) :: done).reverse) outer

/-- A value that begins as `b` does and ends in settings, if any such value does. -/
def completion (b : Json.Builder) : Json :=
  match b with
  | .value outer => enclosed (due outer) outer
  | .firstItem outer => enclosed (.arr []) outer
  | .firstKey outer => enclosed (.obj []) outer
  | .key done outer => enclosed (.obj done.reverse) outer
  | .colon done name outer => enclosed (due (.obj done name :: outer)) (.obj done name :: outer)
  | .after v outer => enclosed v outer

/-- Why a text is not settings. -/
inductive TextFault where
  /-- The text ends too early. -/
  | unfinished
  /-- The text is not one value, or a list of settings goes on where it has to end. -/
  | malformed
  /-- The text is a value of another shape. -/
  | misshapen
deriving DecidableEq

/-- The fault of a text whose value is not settings. -/
def TextFault.ofDocument : DocumentError → TextFault
  | .tooLong _ => malformed
  | _ => misshapen

/-- The fault of a text that is not a value. -/
def TextFault.ofFault : Json.Fault → TextFault
  | .unfinished => unfinished
  | .malformed => malformed

/-- The settings that a text stands for. -/
def ofText (text : String) : Except TextFault Settings :=
  match Json.ofText text with
  | .ok v => (ofJson v).mapError .ofDocument
  | .error f =>
    match ofJson (completion (Json.begun text)) with
    | .ok _ => .error (.ofFault f)
    | .error e => .error (.ofDocument e)

end WindowedStats.Settings
