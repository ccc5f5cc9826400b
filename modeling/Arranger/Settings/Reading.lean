import Arranger.Settings.Basic
import Arranger.Yaml.Document
import Arranger.Yaml.Value

/-!
# Reading settings

A file of settings is a YAML mapping. Settings that are not given stay neutral, settings that do not
exist are passed over, and none is given twice.

## Main definitions

* `Arranger.Settings.ofYaml?` — the settings that a text describes.
* `Arranger.Settings.load` — the settings of a file.

## Implementation notes

Each setting has one type, so a scalar is read as it is written and not first given a meaning: `01`
is no YAML number but it is a scale.
-/

namespace Arranger

namespace Yaml.Node

/-- The text of a scalar. -/
def scalarText? : Node → Option String
  | .scalar _ _ text => some text
  | _ => none

/-- The text of a scalar without quotes, or of a literal one with the tag of a core type. -/
def bareText? (type : String) : Node → Option String
  | .scalar _ .plain text => some text
  | .scalar tag .literal text => if tag = some (.core type) then some text else none
  | _ => none

/-- Whether the node says that there is nothing; a node with the tag of null must. -/
def isNull? : Node → Option Bool
  | .scalar none .plain text => some (text.isEmpty || isNullWord text)
  | .scalar (some tag) .plain text =>
    if tag = .core "null" then if isNullWord text then some true else none
    else some false
  | _ => some false

/-- The number that a scalar spells. -/
def float? (node : Node) : Option Double :=
  (node.bareText? "float").bind Yaml.float?

/-- The way of repeating that a scalar names: by its text, or by its tag if it has no text. -/
def repeat? : Node → Option Repeat
  | .scalar tag style text =>
    match tag.bind Tag.localName? with
    | none => Repeat.ofName? text
    | some name =>
      if style = .plain && (text.isEmpty || isNullWord text) then Repeat.ofName? name else none
  | _ => none

/-- The seed that a scalar spells, if it spells one or nothing. -/
def seed? (node : Node) : Option (Option UInt64) := do
  if ← node.isNull? then return none
  return some (← natural? (← node.bareText? "int"))

end Yaml.Node

namespace Settings

/-- The settings with the one of a name read from a node. -/
def set? (settings : Settings) (name : String) (node : Yaml.Node) : Option Settings := do
  match name with
  | "seed" => return { settings with seed := ← node.seed? }
  | "repeat" => return { settings with repetition := ← node.repeat? }
  | "ceiling" => return { settings with ceiling := (← node.float?).convert }
  | "scale" => return { settings with scale := ← node.float? }
  | "shift" => return { settings with shift := ← node.float? }
  | _ => return settings

/-- The names of the settings. -/
def names : List String :=
  ["seed", "repeat", "ceiling", "scale", "shift"]

/-- The settings with those that entries give. The names in `given` may not be given again. -/
def setAll? (document : Yaml.Document) (settings : Settings) (given : List String) :
    List (Yaml.Node × Yaml.Node) → Option Settings
  | [] => some settings
  | entry :: entries => do
    let name ← (← document.resolve? entry.1).scalarText?
    if given.contains name then failure
    let settings ← settings.set? name (← document.resolve? entry.2)
    setAll? document settings (if names.contains name then name :: given else given) entries

/-- The settings that a document describes. -/
def ofDocument? (document : Yaml.Document) : Option Settings := do
  setAll? document neutral [] (← document.entries?)

/-- The settings that a text describes. A text without a document leaves them neutral. -/
def ofYaml? (text : String) : Option Settings := do
  match ← Yaml.document? text with
  | some document => ofDocument? document
  | none => return neutral

/-- The settings of a file. -/
def load (file : Option ByteArray) : Except Fault Settings :=
  match Yaml.fileText? file with
  | some text =>
    match ofYaml? text with
    | some settings => .ok settings
    | none => .error (.configuration .badSettings)
  | none => .error .unreadable

end Settings

end Arranger
