import Arranger.Yaml.Escape

/-!
# YAML tags

A tag names the type of a node. The tags of the core types are long names, and those of the
document's own types start with an exclamation mark.

## Main definitions

* `Arranger.Yaml.Tag` — the tags.
* `Arranger.Yaml.Tag.core` — the tags of the core types.
* `Arranger.Yaml.Tag.localName?` — the name in a tag of the document's own.

## Implementation notes

The bytes of a tag can be given one by one, and they need not be the encoding of a text. Such a tag
is still there, but it has no name.
-/

namespace Arranger.Yaml

/-- A tag, or a part of one. -/
structure Tag where
  /-- Its bytes. -/
  bytes : List UInt8
deriving DecidableEq

namespace Tag

/-- The tag that a text spells. -/
def ofText (text : String) : Tag :=
  ⟨text.toUTF8.toList⟩

/-- The tag that characters spell, with percent signs before the numbers of bytes. It ends at a zero
byte. -/
def ofChars? (chars : List Char) : Option Tag :=
  (percentBytes? 0 chars).map fun bytes => ⟨bytes.takeWhile (· != 0)⟩

/-- The tag made of two parts. -/
def append (start rest : Tag) : Tag :=
  ⟨start.bytes ++ rest.bytes⟩

/-- The tag of a core type. -/
def core (type : String) : Tag :=
  ofText ("tag:yaml.org,2002:" ++ type)

/-- The tag that is an exclamation mark. -/
def mark : Tag :=
  ofText "!"

/-- Whether the tag is one of the document's own. -/
def isLocal (tag : Tag) : Bool :=
  tag.bytes.head? == mark.bytes.head?

/-- The name in a tag of the document's own: what follows the exclamation mark, or the mark itself
where nothing does. -/
def localName? (tag : Tag) : Option String :=
  if tag = mark then some "!"
  else if tag.isLocal then String.fromUTF8? ⟨(tag.bytes.drop 1).toArray⟩
  else none

end Tag

end Arranger.Yaml
