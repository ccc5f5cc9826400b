import Arranger.Yaml.Tag

/-!
# YAML tokens

The tokens of YAML, in which indentation has become brackets: the start of a block collection and
its end are tokens.

## Main definitions

* `Arranger.Yaml.ScalarStyle` — the ways of writing a scalar.
* `Arranger.Yaml.Token` — the tokens.
-/

namespace Arranger.Yaml

/-- How a scalar is written. -/
inductive ScalarStyle where
  /-- Without quotes. -/
  | plain
  /-- In quotes. -/
  | quoted
  /-- As indented lines that are kept. -/
  | literal
  /-- As indented lines that are joined. -/
  | folded
deriving DecidableEq

/-- A token. -/
inductive Token where
  /-- The version of the language. -/
  | version (major minor : Nat)
  /-- A handle that stands for the start of tags. -/
  | tagHandle (handle : String) (start : Tag)
  /-- The mark `---`. -/
  | documentStart
  /-- The mark `...`. -/
  | documentEnd
  /-- An indented sequence starts. -/
  | blockSequenceStart
  /-- An indented mapping starts. -/
  | blockMappingStart
  /-- An indented collection ends. -/
  | blockEnd
  /-- The character `[`. -/
  | flowSequenceStart
  /-- The character `]`. -/
  | flowSequenceEnd
  /-- An opening brace. -/
  | flowMappingStart
  /-- A closing brace. -/
  | flowMappingEnd
  /-- The character `-` before an item. -/
  | blockEntry
  /-- The character `,`. -/
  | flowEntry
  /-- A key follows. -/
  | key
  /-- A value follows. -/
  | value
  /-- A reference to the node with an anchor. -/
  | reference (name : String)
  /-- The anchor of the node that follows. -/
  | anchor (name : String)
  /-- The tag of the node that follows, with a handle for its start or without. -/
  | tag (handle : Option String) (rest : Tag)
  /-- A scalar. -/
  | scalar (style : ScalarStyle) (text : String)
deriving DecidableEq

end Arranger.Yaml
