import ScriptGraph.Json.Basic

/-!
# Settings

The knobs of one analysis. Settings come from a table of a configuration file and from overrides;
their values are taken as they are, and a value of the wrong kind shows where it is used. Only the
list of markers is turned into a list at once.
-/

namespace ScriptGraph

/-- The knobs of one analysis. -/
structure Settings where
  maxCalls : Json := .integer 60
  paramLabelMax : Json := .integer 60
  argLabelMax : Json := .integer 80
  resolveImports : Json := .bool true
  externalMarkers : List Json := [.string "/node_modules/", .string "/typescript/lib/"]
deriving Inhabited

/-- Why overrides cannot be applied. -/
inductive SettingsError
  | unknownKey (key : String)
  | markersNotListed
deriving DecidableEq, Repr

namespace Settings

/-- The names of the settings. -/
def keys : List String :=
  ["max_calls", "param_label_max", "arg_label_max", "resolve_imports", "external_markers"]

/-- The items of a value that can be gone through: an array's items, a text's characters, an
object's names. -/
def itemsOf (value : Json) : Option (List Json) :=
  match value with
  | .array items => some items
  | .string text => some (text.toList.map fun c => .string (String.singleton c))
  | .object members => some (members.map fun m => .string m.1)
  | _ => none

/-- Sets one value. -/
def set (s : Settings) (key : String) (value : Json) : Except SettingsError Settings :=
  match key with
  | "max_calls" => .ok { s with maxCalls := value }
  | "param_label_max" => .ok { s with paramLabelMax := value }
  | "arg_label_max" => .ok { s with argLabelMax := value }
  | "resolve_imports" => .ok { s with resolveImports := value }
  | "external_markers" =>
    match itemsOf value with
    | some items => .ok { s with externalMarkers := items }
    | none => .error .markersNotListed
  | _ => .error (.unknownKey key)

/-- The values of a table under an override each, the overrides coming last; a `null` override
says nothing. -/
def layered (table overrides : List (String × Json)) : List (String × Json) :=
  let given := overrides.filter fun o => match o.2 with
    | .null => false
    | _ => true
  -- A name in the table that is no setting is passed over; as an override it is an error.
  (table.filter fun e => keys.contains e.1 && !given.any (·.1 == e.1)) ++ given

/-- The settings that a configuration table and overrides give. -/
def ofLayers (table overrides : List (String × Json)) : Except SettingsError Settings :=
  (layered table overrides).foldlM (fun s e => s.set e.1 e.2) {}

/-- The keys of a configuration table that name no setting. -/
def unknownKeys (table : List (String × Json)) : List String :=
  (table.map (·.1)).filter fun k => !keys.contains k

/-- The settings as an object. -/
def toJson (s : Settings) : Json :=
  .object [("max_calls", s.maxCalls), ("param_label_max", s.paramLabelMax),
    ("arg_label_max", s.argLabelMax), ("resolve_imports", s.resolveImports),
    ("external_markers", .array s.externalMarkers)]

end Settings

namespace Json

/-- Whether a value counts as true: not `null`, `false`, zero or empty. -/
def isTruthy : Json → Bool
  | .null => false
  | .bool b => b
  | .integer n => n != 0
  | .decimal d => d.mantissa != 0
  | .string s => !s.isEmpty
  | .array items => !items.isEmpty
  | .object members => !members.isEmpty

/-- The whole number that a value stands for when one is needed; the truth values stand for one
and zero. -/
def asIndex : Json → Option Int
  | .integer n => some n
  | .bool b => some (if b then 1 else 0)
  | _ => none

end Json

end ScriptGraph
