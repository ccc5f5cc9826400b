import Arranger.Yaml.Escape
import Arranger.Yaml.Input

/-!
# Plain and quoted scalars

Scalars without quotes, in single quotes and in double quotes. All three fold lines: a single line
break between words reads as a space, and of more than one the first is dropped.

## Main definitions

* `Arranger.Yaml.fold` — the text that a gap reads as.
* `Arranger.Yaml.readPlain?` — a scalar without quotes.
* `Arranger.Yaml.readSingle?`, `readDouble?` — a scalar in quotes.

## Implementation notes

The readers go through the characters one by one. `gap` holds the gap that was just passed,
backwards, and `done` the text before it, backwards: the gap is folded when it turns out to be
followed by more of the scalar.
-/

namespace Arranger.Yaml

/-- The text that a gap reads as. Without a line break it reads as itself. -/
def fold (gap : List Char) : List Char :=
  match gap.filter isBreak with
  | [] => gap
  | first :: more =>
    if first != '\n' then first :: more else if more.isEmpty then [' '] else more

/-- The text, backwards, with a folded gap at its end; the gap is given backwards. -/
def withGap (done gap : List Char) : List Char :=
  (fold gap.reverse).reverse ++ done

/-- Whether there is a tab before column `indent` on a line that starts within the gap. -/
def hasBadTab (indent column : Nat) (onNewLine : Bool) : List Char → Bool
  | [] => false
  | c :: gap =>
    if isBreak c then hasBadTab indent 0 true gap
    else (onNewLine && c == '\t' && column < indent) || hasBadTab indent (column + 1) onNewLine gap

/-! ## Plain scalars -/

/-- A plain scalar that was read. -/
structure PlainScalar where
  /-- The text. -/
  text : List Char
  /-- Whether a line break follows the text. -/
  beforeBreak : Bool
  /-- The input after the text and the gap behind it. -/
  after : Input

/-- Whether a plain scalar ends at a colon or at a character of flow collections. -/
def endsPlain (inFlow : Bool) (c : Char) (rest : List Char) : Bool :=
  (c == ':' && atGap rest)
    || (inFlow && (c == ',' || c == '[' || c == ']' || c == '\x7b' || c == '\x7d'))

/-- Whether a colon stands where a flow collection has no place for one. -/
def isMisplacedColon (inFlow : Bool) (c : Char) (rest : List Char) : Bool :=
  inFlow && c == ':' && rest.head?.any [',', '?', '[', ']', '\x7b', '\x7d'].contains

/-- Whether what follows a gap is no longer part of the plain scalar before it: a document marker,
a comment or, outside flow collections, a line that is indented less than `indent`. -/
def leavesPlain (inFlow : Bool) (indent : Nat) (input : Input) : Bool :=
  input.atDocumentMarker || input.rest.head? == some '#' || (!inFlow && input.column < indent)

/-- The plain scalar at the start of the characters. -/
def readPlain? (inFlow : Bool) (indent : Nat) (done gap : List Char) (line column : Nat) :
    List Char → Option PlainScalar
  | [] =>
    if hasBadTab indent column false gap.reverse then none
    else some ⟨done.reverse, gap.any isBreak, ⟨[], line, column⟩⟩
  | c :: rest =>
    if isBreak c then readPlain? inFlow indent done (c :: gap) (line + 1) 0 rest
    else if isTabOrSpace c then readPlain? inFlow indent done (c :: gap) line (column + 1) rest
    else if hasBadTab indent column false gap.reverse then none
    else
      let here : Input := ⟨c :: rest, line, column⟩
      if !gap.isEmpty && leavesPlain inFlow indent here then
        some ⟨done.reverse, gap.any isBreak, here⟩
      else if isMisplacedColon inFlow c rest then none
      else if endsPlain inFlow c rest then some ⟨done.reverse, gap.any isBreak, here⟩
      else readPlain? inFlow indent (c :: withGap done gap) [] line (column + 1) rest

/-! ## Quoted scalars -/

/-- The scalar in single quotes, from behind the first quote on, and the input behind the last one.
A quote inside is written twice. -/
def readSingle? (done gap : List Char) (line column : Nat) :
    List Char → Option (List Char × Input)
  | [] => none
  | c :: rest =>
    if isBreak c then readSingle? done (c :: gap) (line + 1) 0 rest
    else if isTabOrSpace c then readSingle? done (c :: gap) line (column + 1) rest
    else if (Input.mk (c :: rest) line column).atDocumentMarker then none
    else if c == '\'' then
      match rest with
      | '\'' :: rest => readSingle? ('\'' :: withGap done gap) [] line (column + 2) rest
      | _ => some ((withGap done gap).reverse, ⟨rest, line, column + 1⟩)
    else readSingle? (c :: withGap done gap) [] line (column + 1) rest

/-- The text, backwards, with the gap behind it. Behind an escaped line break, a gap reads as its
line breaks. -/
def withQuotedGap (done gap : List Char) (joined : Bool) : List Char :=
  if joined then gap.filter isBreak ++ done else withGap done gap

/-- The scalar in double quotes, from behind the first quote on, and the input behind the last one.
The flag `joined` says whether the gap follows an escaped line break. -/
def readDouble? (done gap : List Char) (joined : Bool) (line column : Nat) :
    List Char → Option (List Char × Input)
  | [] => none
  | c :: rest =>
    if isBreak c then readDouble? done (c :: gap) joined (line + 1) 0 rest
    else if isTabOrSpace c then readDouble? done (c :: gap) joined line (column + 1) rest
    else if (Input.mk (c :: rest) line column).atDocumentMarker then none
    else
      let done := withQuotedGap done gap joined
      if c == '"' then some (done.reverse, ⟨rest, line, column + 1⟩)
      else if c != '\\' then readDouble? (c :: done) [] false line (column + 1) rest
      else match rest with
        | 'x' :: a :: b :: rest => do
          readDouble? ((← hexChar? [a, b]) :: done) [] false line (column + 4) rest
        | 'u' :: a :: b :: c :: d :: rest => do
          readDouble? ((← hexChar? [a, b, c, d]) :: done) [] false line (column + 6) rest
        | 'U' :: a :: b :: c :: d :: e :: f :: g :: h :: rest => do
          readDouble? ((← hexChar? [a, b, c, d, e, f, g, h]) :: done) [] false line (column + 10)
            rest
        | e :: rest =>
          if isBreak e then readDouble? done [] true (line + 1) 0 rest
          else do readDouble? ((← escaped? e) :: done) [] false line (column + 2) rest
        | [] => none

end Arranger.Yaml
