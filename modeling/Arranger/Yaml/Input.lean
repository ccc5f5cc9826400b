/-!
# Reading YAML text

The characters of a YAML text with their lines and columns. Lines may end in several ways, and a
text holds no control characters.

## Main definitions

* `Arranger.Yaml.isTabOrSpace`, `isBreak`, `isGap` — the characters between words.
* `Arranger.Yaml.Input` — the characters that are left, with the place of the first.
* `Arranger.Yaml.Input.ofText?` — the input of a text.

## Implementation notes

Line feeds, carriage returns and next-line characters are all read as line feeds, so they are made
line feeds beforehand. The two separators of Unicode also end a line, and they are kept.
-/

namespace Arranger.Yaml

/-! ## Characters -/

/-- Whether a character separates words on a line. -/
def isTabOrSpace (c : Char) : Bool :=
  c == ' ' || c == '\t'

/-- Whether a character ends a line. -/
def isBreak (c : Char) : Bool :=
  c == '\n' || c == '\u2028' || c == '\u2029'

/-- Whether a character separates words or ends a line. -/
def isGap (c : Char) : Bool :=
  isTabOrSpace c || isBreak c

/-- Whether a character may be part of a name. -/
def isNameChar (c : Char) : Bool :=
  ('a' ≤ c && c ≤ 'z') || ('A' ≤ c && c ≤ 'Z') || ('0' ≤ c && c ≤ '9') || c == '_' || c == '-'

/-- Whether a character may occur in a text. -/
def isAllowed (c : Char) : Bool :=
  let n := c.toNat
  n == 0x9 || n == 0xA || n == 0xD || (0x20 ≤ n && n ≤ 0x7E) || n == 0x85
    || (0xA0 ≤ n && n ≤ 0xD7FF) || (0xE000 ≤ n && n ≤ 0xFFFD) || 0x10000 ≤ n

/-- Whether the characters start with a gap or are used up. -/
def atGap : List Char → Bool
  | [] => true
  | c :: _ => isGap c

/-- Whether the characters start with a line break or are used up. -/
def atLineEnd : List Char → Bool
  | [] => true
  | c :: _ => isBreak c

/-- The characters with one kind of line break for all that read alike. -/
def unifyBreaks : List Char → List Char
  | [] => []
  | '\r' :: '\n' :: rest => '\n' :: unifyBreaks rest
  | c :: rest => (if c == '\r' || c == '\u0085' then '\n' else c) :: unifyBreaks rest

/-! ## Input -/

/-- Characters that are left to be read. -/
structure Input where
  /-- The characters. -/
  rest : List Char
  /-- The number of lines before the first of them. -/
  line : Nat
  /-- The number of characters before it on its line. -/
  column : Nat

namespace Input

/-- The input of a text, if all its characters are allowed. -/
def ofText? (text : String) : Option Input :=
  if text.toList.all isAllowed then some ⟨unifyBreaks text.toList, 0, 0⟩ else none

/-- The input after its first character. -/
def next (input : Input) : Input :=
  match input.rest with
  | [] => input
  | c :: rest =>
    if isBreak c then ⟨rest, input.line + 1, 0⟩ else ⟨rest, input.line, input.column + 1⟩

/-- The input after some characters of the line. -/
def skip (input : Input) (count : Nat) : Input :=
  ⟨input.rest.drop count, input.line, input.column + count⟩

/-- The leading characters of a kind that ends no line, and the input after them. -/
def span (input : Input) (kind : Char → Bool) : List Char × Input :=
  let run := input.rest.takeWhile kind
  (run, input.skip run.length)

/-- The input after the leading tabs and spaces. -/
def skipSpaces (input : Input) : Input :=
  (input.span isTabOrSpace).2

/-- The input after the rest of a line that holds a comment at most. -/
def finishLine? (input : Input) : Option Input :=
  let input := input.skipSpaces
  let input := if input.rest.head? == some '#' then (input.span (!isBreak ·)).2 else input
  if atLineEnd input.rest then some input.next else none

/-- The input from the next token on, and whether a key may start there. Comments are skipped, and
tabs where no key may start. A byte order mark at the start of a line is skipped and takes a column.
Outside flow collections a new line may start a key. -/
def toToken (inFlow keyAllowed inComment : Bool) (line column : Nat) :
    List Char → Input × Bool
  | [] => (⟨[], line, column⟩, keyAllowed)
  | c :: rest =>
    if isBreak c then toToken inFlow (keyAllowed || !inFlow) false (line + 1) 0 rest
    else if inComment || c == ' ' || (c == '\t' && (inFlow || !keyAllowed))
        || (c == '\ufeff' && column == 0) then
      toToken inFlow keyAllowed inComment line (column + 1) rest
    else if c == '#' then toToken inFlow keyAllowed true line (column + 1) rest
    else (⟨c :: rest, line, column⟩, keyAllowed)

/-- Whether the line starts with three times the character and a gap. -/
def atMarker (input : Input) (c : Char) : Bool :=
  input.column == 0 && input.rest.take 3 == [c, c, c] && atGap (input.rest.drop 3)

/-- Whether the line marks the start or the end of a document. -/
def atDocumentMarker (input : Input) : Bool :=
  input.atMarker '-' || input.atMarker '.'

end Input

end Arranger.Yaml
