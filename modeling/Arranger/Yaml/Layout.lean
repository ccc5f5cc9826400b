import Arranger.Yaml.Block
import Arranger.Yaml.Plain
import Arranger.Yaml.Token

/-!
# Layout

The tokens of a text. Indentation opens and closes block collections, and that a node is a key is
only known at the colon behind it: the token that announces a key is put in afterwards, at the place
that was noted when the node began.

## Main definitions

* `Arranger.Yaml.Layout` — the tokens so far with the input and the open collections.
* `Arranger.Yaml.tokens?` — the tokens of a text.

## Implementation notes

A node that may turn out to be a key is noted for each open flow collection and for the block around
them. A note expires on the next line, and after `maxKeyWidth` characters. A required note, where
the indentation leaves no other reading, must not expire.
-/

namespace Arranger.Yaml

/-- The largest width of a key. -/
def maxKeyWidth : Nat := 1024

/-- The place of a node that may turn out to be a key. -/
structure KeyNote where
  /-- The line of the node. -/
  line : Nat
  /-- The column of the node. -/
  column : Nat
  /-- The number of tokens before the node. -/
  index : Nat
  /-- Whether the node can be nothing but a key. -/
  required : Bool

/-- The tokens so far. -/
structure Layout where
  /-- The input that is left. -/
  input : Input
  /-- The tokens. -/
  tokens : List Token
  /-- The columns of the open block collections, the innermost first. -/
  columns : List Nat
  /-- The node that may be a key of the innermost collection. -/
  note : Option KeyNote
  /-- The same for the collections around it, one for each open flow collection. -/
  outerNotes : List (Option KeyNote)
  /-- Whether a key may start here. -/
  keyAllowed : Bool

namespace Layout

/-- The layout before anything is read. -/
def start (input : Input) : Layout :=
  ⟨input, [], [], none, [], true⟩

/-- Whether a flow collection is open. -/
def inFlow (layout : Layout) : Bool :=
  !layout.outerNotes.isEmpty

/-- The least column that is inside the innermost block collection. -/
def innerColumn (layout : Layout) : Nat :=
  match layout.columns with
  | [] => 0
  | column :: _ => column + 1

/-- The layout with a further token. -/
def emit (layout : Layout) (token : Token) : Layout :=
  { layout with tokens := layout.tokens ++ [token] }

/-- The layout with a token put in. -/
def put (layout : Layout) (index : Nat) (token : Token) : Layout :=
  { layout with tokens := layout.tokens.insertIdx index token }

/-- The layout with a further token that takes some characters of the line. -/
def take (layout : Layout) (width : Nat) (token : Token) : Layout :=
  { layout.emit token with input := layout.input.skip width }

/-! ## Notes -/

/-- No note, unless it is required. -/
def dropNote? : Option KeyNote → Option (Option KeyNote)
  | none => some none
  | some note => if note.required then none else some none

/-- The note, if it is still of the given line and near enough. -/
def expire? (line column : Nat) : Option KeyNote → Option (Option KeyNote)
  | none => some none
  | some note =>
    if note.line < line || note.column + maxKeyWidth < column then dropNote? (some note)
    else some (some note)

/-- The layout without the note of the innermost collection. -/
def forget? (layout : Layout) : Option Layout := do
  return { layout with note := ← dropNote? layout.note }

/-- The layout without the notes that have expired. -/
def expireNotes? (layout : Layout) : Option Layout := do
  let expire := expire? layout.input.line layout.input.column
  return { layout with note := ← expire layout.note, outerNotes := ← layout.outerNotes.mapM expire }

/-- The layout with a note of the node that starts here, if a key may start here. -/
def noteKey? (layout : Layout) : Option Layout := do
  if layout.keyAllowed then
    let layout ← layout.forget?
    let column := layout.input.column
    let required := !layout.inFlow && layout.columns.head? == some column
    return { layout with
      note := some ⟨layout.input.line, column, layout.tokens.length, required⟩ }
  else return layout

/-! ## Block collections -/

/-- The layout in which a block collection is open at a column, started by a token that is put in at
an index. Inside flow collections there is none. -/
def openBlock (layout : Layout) (column index : Nat) (token : Token) : Layout :=
  if layout.inFlow || column < layout.innerColumn then layout
  else { layout.put index token with columns := column :: layout.columns }

/-- The layout in which a block collection is open at the next column. -/
def openBlockHere (layout : Layout) (token : Token) : Layout :=
  layout.openBlock layout.input.column layout.tokens.length token

/-- The layout without the block collections of columns from `column` on. -/
def closeBlocks (layout : Layout) (column : Nat) : Layout :=
  if layout.inFlow then layout
  else
    let closed := layout.columns.takeWhile (column ≤ ·)
    { layout with
      tokens := layout.tokens ++ List.replicate closed.length .blockEnd
      columns := layout.columns.drop closed.length }

/-- The layout at the start or the end of a document. -/
def closeDocument? (layout : Layout) : Option Layout := do
  let layout ← (layout.closeBlocks 0).forget?
  return { layout with keyAllowed := false }

/-! ## Indicators -/

/-- A document marker. -/
def documentMarker? (layout : Layout) (token : Token) : Option Layout := do
  return (← layout.closeDocument?).take 3 token

/-- An opening bracket. -/
def openFlow? (layout : Layout) (token : Token) : Option Layout := do
  let layout ← layout.noteKey?
  return { layout.take 1 token with
    note := none, outerNotes := layout.note :: layout.outerNotes, keyAllowed := true }

/-- A closing bracket. -/
def closeFlow? (layout : Layout) (token : Token) : Option Layout := do
  let layout := { (← layout.forget?).take 1 token with keyAllowed := false }
  match layout.outerNotes with
  | [] => return layout
  | note :: notes => return { layout with note, outerNotes := notes }

/-- A comma between the items of a flow collection. -/
def flowEntry? (layout : Layout) : Option Layout := do
  return { (← layout.forget?).take 1 .flowEntry with keyAllowed := true }

/-- A dash before an item of a block sequence. -/
def blockEntry? (layout : Layout) : Option Layout := do
  if !layout.inFlow && !layout.keyAllowed then failure
  let layout ← (layout.openBlockHere .blockSequenceStart).forget?
  return { layout.take 1 .blockEntry with keyAllowed := true }

/-- A question mark before a key. -/
def key? (layout : Layout) : Option Layout := do
  if !layout.inFlow && !layout.keyAllowed then failure
  let layout ← (layout.openBlockHere .blockMappingStart).forget?
  return { layout.take 1 .key with keyAllowed := !layout.inFlow }

/-- A colon before a value. If a node was noted, it is the key. -/
def value? (layout : Layout) : Option Layout := do
  match layout.note with
  | some note =>
    let layout := layout.put note.index .key
    let layout := layout.openBlock note.column note.index .blockMappingStart
    return { layout.take 1 .value with note := none, keyAllowed := false }
  | none =>
    if !layout.inFlow && !layout.keyAllowed then failure
    let layout := layout.openBlockHere .blockMappingStart
    return { layout.take 1 .value with keyAllowed := !layout.inFlow }

/-! ## Anchors, tags and directives -/

/-- The characters that may follow an anchor without a gap. -/
def endsName (rest : List Char) : Bool :=
  atGap rest || rest.head?.any ['?', ':', ',', ']', '\x7d', '%', '@', '\x60'].contains

/-- An anchor or a reference to one, whose first character is the indicator. -/
def anchor? (layout : Layout) (token : String → Token) : Option Layout := do
  let layout ← layout.noteKey?
  let (name, after) := (layout.input.skip 1).span isNameChar
  if name.isEmpty || !endsName after.rest then failure
  return { layout.emit (token (String.ofList name)) with input := after, keyAllowed := false }

/-- Whether a character may be part of a tag; in brackets more are allowed. -/
def isTagChar (bracketed : Bool) (c : Char) : Bool :=
  isNameChar c || ";/?:@&=+$.%!~*'()".toList.contains c || (bracketed && ",[]".toList.contains c)

/-- The part of a tag up to the second exclamation mark, if there are two, or else up to the first
character that no name has. -/
def tagHandle (input : Input) : List Char × Input :=
  let (name, after) := (input.skip 1).span isNameChar
  match after.rest with
  | '!' :: _ => ('!' :: (name ++ ['!']), after.skip 1)
  | _ => ('!' :: name, after)

/-- The handle and the rest of a tag, and the input behind it. -/
def readTag? (input : Input) : Option (Option String × Tag × Input) := do
  if (input.rest.drop 1).head? == some '<' then
    let (chars, after) := (input.skip 2).span (isTagChar true)
    if chars.isEmpty || after.rest.head? != some '>' then failure
    return (none, ← Tag.ofChars? chars, after.skip 1)
  else
    let (handle, after) := tagHandle input
    let (chars, after) := after.span (isTagChar false)
    if 1 < handle.length && handle.getLast? == some '!' then
      if chars.isEmpty then failure
      return (some (String.ofList handle), ← Tag.ofChars? chars, after)
    else
      let tag ← Tag.ofChars? (handle.drop 1 ++ chars)
      return if tag.bytes.isEmpty then (none, .mark, after) else (some "!", tag, after)

/-- A tag. -/
def tag? (layout : Layout) : Option Layout := do
  let layout ← layout.noteKey?
  let (handle, rest, after) ← readTag? layout.input
  if !atGap after.rest && !(layout.inFlow && after.rest.head? == some ',') then failure
  return { layout.emit (.tag handle rest) with input := after, keyAllowed := false }

/-- A number of a version, which has nine digits at most. -/
def versionNumber? (input : Input) : Option (Nat × Input) :=
  let (digits, after) := input.span Char.isDigit
  if digits.isEmpty || 9 < digits.length then none
  else some (Nat.ofDigitChars 10 digits 0, after)

/-- What a directive says, from behind its name on. -/
def readDirective? (name : String) (input : Input) : Option (Token × Input) := do
  match name with
  | "YAML" =>
    let (major, input) ← versionNumber? input.skipSpaces
    if input.rest.head? != some '.' then failure
    let (minor, input) ← versionNumber? (input.skip 1)
    return (.version major minor, input)
  | "TAG" =>
    let input := input.skipSpaces
    if input.rest.head? != some '!' then failure
    let (handle, input) := tagHandle input
    if 1 < handle.length && handle.getLast? != some '!' then failure
    if !input.rest.head?.any isTabOrSpace then failure
    let (chars, input) := input.skipSpaces.span (isTagChar true)
    if chars.isEmpty || !atGap input.rest then failure
    return (.tagHandle (String.ofList handle) (← Tag.ofChars? chars), input)
  | _ => failure

/-- A directive. -/
def directive? (layout : Layout) : Option Layout := do
  let layout ← layout.closeDocument?
  let (name, after) := (layout.input.skip 1).span isNameChar
  if name.isEmpty || !atGap after.rest then failure
  let (token, after) ← readDirective? (String.ofList name) after
  return { layout.emit token with input := ← after.finishLine? }

/-! ## Scalars -/

/-- A plain scalar. -/
def plain? (layout : Layout) : Option Layout := do
  let layout ← layout.noteKey?
  let input := layout.input
  let scalar ←
    readPlain? layout.inFlow layout.innerColumn [] [] input.line input.column input.rest
  return { layout.emit (.scalar .plain (String.ofList scalar.text)) with
    input := scalar.after, keyAllowed := scalar.beforeBreak }

/-- A scalar in quotes. -/
def quoted? (layout : Layout) (double : Bool) : Option Layout := do
  let layout ← layout.noteKey?
  let input := layout.input.skip 1
  let (text, after) ←
    if double then readDouble? [] [] false input.line input.column input.rest
    else readSingle? [] [] input.line input.column input.rest
  return { layout.emit (.scalar .quoted (String.ofList text)) with
    input := after, keyAllowed := false }

/-- A block scalar. -/
def block? (layout : Layout) (literal : Bool) : Option Layout := do
  let layout ← layout.forget?
  let (text, after) ← readBlock? literal layout.innerColumn (layout.input.skip 1)
  let style := if literal then ScalarStyle.literal else .folded
  return { layout.emit (.scalar style (String.ofList text)) with
    input := after, keyAllowed := true }

/-! ## All tokens -/

/-- Whether a plain scalar starts with the characters. -/
def startsPlain (inFlow : Bool) (c : Char) (rest : List Char) : Bool :=
  (!isGap c && !"-?:,[]\x7b\x7d#&*!|>'\"%@\x60".toList.contains c)
    || (c == '-' && !rest.head?.any isTabOrSpace)
    || (!inFlow && (c == '?' || c == ':') && !atGap rest)

/-- The layout after the next token, which starts with `c`. -/
def readToken? (layout : Layout) (c : Char) (rest : List Char) : Option Layout :=
  let inFlow := layout.inFlow
  if layout.input.column == 0 && c == '%' then layout.directive?
  else if layout.input.atMarker '-' then layout.documentMarker? .documentStart
  else if layout.input.atMarker '.' then layout.documentMarker? .documentEnd
  else if c == '[' then layout.openFlow? .flowSequenceStart
  else if c == '\x7b' then layout.openFlow? .flowMappingStart
  else if c == ']' then layout.closeFlow? .flowSequenceEnd
  else if c == '\x7d' then layout.closeFlow? .flowMappingEnd
  else if c == ',' then layout.flowEntry?
  else if c == '-' && atGap rest then layout.blockEntry?
  else if c == '?' && (inFlow || atGap rest) then layout.key?
  else if c == ':' && (inFlow || atGap rest) then layout.value?
  else if c == '*' then layout.anchor? .reference
  else if c == '&' then layout.anchor? .anchor
  else if c == '!' then layout.tag?
  else if c == '|' && !inFlow then layout.block? true
  else if c == '>' && !inFlow then layout.block? false
  else if c == '\'' then layout.quoted? false
  else if c == '"' then layout.quoted? true
  else if startsPlain inFlow c rest then layout.plain?
  else none

/-- The layout at the next token. -/
def atToken? (layout : Layout) : Option Layout :=
  let (input, keyAllowed) := Input.toToken layout.inFlow layout.keyAllowed false
    layout.input.line layout.input.column layout.input.rest
  { layout with input, keyAllowed }.expireNotes?

/-- The tokens of the rest of the input, in at most `fuel` steps. Each step takes a character, so the
number of characters and one more is enough. -/
def finish? : Nat → Layout → Option (List Token)
  | 0, _ => none
  | fuel + 1, layout => do
    let layout ← layout.atToken?
    match layout.input.rest with
    | [] => return (← (layout.closeBlocks 0).forget?).tokens
    | c :: rest =>
      let layout := layout.closeBlocks (layout.input.column + 1)
      finish? fuel (← layout.readToken? c rest)

end Layout

/-- The tokens of a text, if it is well formed. -/
def tokens? (text : String) : Option (List Token) := do
  let input ← Input.ofText? text
  Layout.finish? (input.rest.length + 1) (.start input)

end Arranger.Yaml
