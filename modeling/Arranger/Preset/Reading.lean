import Arranger.Preset.Book
import Arranger.Yaml.Document
import Arranger.Yaml.Value

/-!
# Reading books of presets

A file of presets is a YAML mapping from names to presets, and a preset is a mapping of its settings.
Settings that no preset has are passed over.

## Main definitions

* `Arranger.Preset.ofValue?` — the preset that a value describes.
* `Arranger.PresetBook.ofYaml` — the book that a text describes.
* `Arranger.PresetBook.load`, `loadDefault` — the book of a file.
-/

namespace Arranger

/-- The scale that a value gives. -/
def ScaleSetting.ofValue? : Yaml.Value → Option ScaleSetting
  | .integer n => some (.single (Binary.ofInt n))
  | .float x => some (.single x)
  | .sequence items => do
    let factors ← items.mapM fun item => match item with
      | .tagged _ _ => none
      | item => item.number?
    return .list factors
  | _ => none

/-- The value of a name, if there is one. A name may not stand twice. -/
def field? (fields : List (String × Yaml.Value)) (name : String) : Option (Option Yaml.Value) :=
  match fields.filter fun field => field.1 = name with
  | [] => some none
  | [field] => some (some field.2)
  | _ => none

/-- The setting of a name, read by `read`. A setting that is null is not set. -/
def setting? {α : Type} (fields : List (String × Yaml.Value)) (name : String)
    (read : Yaml.Value → Option α) : Option (Option α) := do
  match ← field? fields name with
  | none | some .null => return none
  | some value => return some (← read value)

/-- The preset that a value describes. -/
def Preset.ofValue? (value : Yaml.Value) : Option Preset := do
  let fields ← value.fields?
  let pattern ← (← ← field? fields "pattern").text?
  let scale ← setting? fields "scale" ScaleSetting.ofValue?
  let shift ← setting? fields "shift" Yaml.Value.number?
  let repetition ← setting? fields "repeat" fun value => value.choice?.bind Repeat.ofName?
  let description ← setting? fields "description" Yaml.Value.text?
  return ⟨pattern, scale, shift, repetition, description⟩

namespace PresetBook

/-- The entries at the root of a document, with their values. -/
def rootEntries? (document : Yaml.Document) : Option (List (Yaml.Value × Yaml.Value)) := do
  if (← document.entries?).isEmpty then return []
  match (← Yaml.Value.ofDocument? document).untagged with
  | .mapping entries => return entries
  | _ => failure

/-- The entries at the root of a text. A text without a document has none. -/
def textEntries? (text : String) : Option (List (Yaml.Value × Yaml.Value)) := do
  match ← Yaml.document? text with
  | some document => rootEntries? document
  | none => return []

/-- The book with one more preset, described by a key and a value. -/
def addEntry (book : PresetBook) (key value : Yaml.Value) : Except Fault PresetBook :=
  match key with
  | .text name =>
    match Preset.ofValue? value with
    | some preset => .ok (book.insert name preset)
    | none => .error (.configuration (.badPreset name))
  | _ => .error (.configuration .presetName)

/-- The book that a text describes. -/
def ofYaml (text : String) : Except Fault PresetBook :=
  match textEntries? text with
  | some entries => entries.foldlM (fun book entry => book.addEntry entry.1 entry.2) empty
  | none => .error (.configuration .notPresets)

/-- The book of a file. -/
def load (file : Option ByteArray) : Except Fault PresetBook :=
  match Yaml.fileText? file with
  | some text => ofYaml text
  | none => .error .unreadable

/-- The presets that are always there with those of a file, as far as it describes any. -/
def loadDefault (file : Option ByteArray) : PresetBook :=
  match load file with
  | .ok book => builtin.merge book
  | .error _ => builtin

end PresetBook

end Arranger
