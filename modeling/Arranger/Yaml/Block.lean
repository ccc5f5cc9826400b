import Arranger.Yaml.Input

/-!
# Block scalars

A block scalar is made of the lines that are indented below its header. A literal one keeps its
line breaks, and a folded one reads a line break between two lines of words as a space. What
becomes of the line breaks at the end is chosen in the header.

## Main definitions

* `Arranger.Yaml.BlockHeader` — what the header says.
* `Arranger.Yaml.readBlock?` — a block scalar.
-/

namespace Arranger.Yaml

/-- What becomes of the line breaks at the end of a block scalar. -/
inductive Chomping where
  /-- All are dropped. -/
  | strip
  /-- The first is kept. -/
  | clip
  /-- All are kept. -/
  | keep

/-- What the header of a block scalar says. -/
structure BlockHeader where
  /-- What becomes of the line breaks at the end. -/
  chomping : Chomping
  /-- How much further than their surroundings the lines are indented, if that is given. -/
  increment : Option Nat

/-- The choice of line breaks that a character makes. -/
def Chomping.ofChar? : Char → Option Chomping
  | '+' => some .keep
  | '-' => some .strip
  | _ => none

/-- The indentation that a digit gives, which is not zero. -/
def incrementOf? (c : Char) : Option Nat :=
  if '1' ≤ c ∧ c ≤ '9' then some (c.toNat - 48) else none

/-- The header at the start of the characters, and how many characters it takes. The two choices
may come in either order. -/
def readHeader? : List Char → Option (BlockHeader × Nat)
  | [] => some (⟨.clip, none⟩, 0)
  | c :: rest =>
    let second := rest.headD ' '
    match Chomping.ofChar? c with
    | some chomping =>
      match incrementOf? second with
      | some n => some (⟨chomping, some n⟩, 2)
      | none => some (⟨chomping, none⟩, 1)
    | none =>
      match incrementOf? c with
      | some n =>
        match Chomping.ofChar? second with
        | some chomping => some (⟨chomping, some n⟩, 2)
        | none => some (⟨.clip, some n⟩, 1)
      | none => some (⟨.clip, none⟩, 0)

/-- The indentation of the first line that is not blank, or of the longest blank line before it if
that is more. There is no tab in it. -/
def detectIndent? (column widest : Nat) : List Char → Option Nat
  | [] => some (max widest column)
  | c :: rest =>
    if c == ' ' then detectIndent? (column + 1) widest rest
    else if c == '\t' then none
    else if isBreak c then detectIndent? 0 (max widest column) rest
    else some (max widest column)

/-- What was read of a block scalar. -/
structure BlockText where
  /-- The text up to the end of the last line that is not blank, backwards. -/
  done : List Char
  /-- The line break at the end of that line. -/
  lineBreak : List Char
  /-- The line breaks of the blank lines behind it, backwards. -/
  blankBreaks : List Char
  /-- Whether that line starts with a blank. -/
  startsBlank : Bool

namespace BlockText

/-- No text. -/
def empty : BlockText := ⟨[], [], [], false⟩

/-- The text with the line breaks that come before a further line. -/
def joined (literal nextBlank : Bool) (text : BlockText) : List Char :=
  let folds := !literal && text.lineBreak == ['\n'] && !text.startsBlank && !nextBlank
  let lineBreak := if !folds then text.lineBreak
    else if text.blankBreaks.isEmpty then [' '] else []
  text.blankBreaks ++ lineBreak ++ text.done

/-- The text with the line breaks that are kept at its end. -/
def finished (chomping : Chomping) (text : BlockText) : List Char :=
  match chomping with
  | .strip => text.done.reverse
  | .clip => (text.lineBreak ++ text.done).reverse
  | .keep => (text.blankBreaks ++ text.lineBreak ++ text.done).reverse

end BlockText

/-- The lines that are indented by `indent`, and the input behind them. The flag `inLine` says
whether the indentation of the line is passed. -/
def readLines? (literal : Bool) (indent : Nat) (text : BlockText) (inLine : Bool)
    (line column : Nat) : List Char → Option (BlockText × Input)
  | [] => some (text, ⟨[], line, column⟩)
  | c :: rest =>
    if inLine then
      if isBreak c then
        readLines? literal indent { text with lineBreak := [c] } false (line + 1) 0 rest
      else
        readLines? literal indent { text with done := c :: text.done } true line (column + 1) rest
    else if column < indent && c == ' ' then
      readLines? literal indent text false line (column + 1) rest
    else if column < indent && c == '\t' then none
    else if isBreak c then
      readLines? literal indent { text with blankBreaks := c :: text.blankBreaks } false
        (line + 1) 0 rest
    else if column < indent then some (text, ⟨c :: rest, line, column⟩)
    else
      let blank := isTabOrSpace c
      readLines? literal indent ⟨c :: text.joined literal blank, [], [], blank⟩ true line
        (column + 1) rest

/-- The block scalar from behind its indicator on, and the input behind it. The number
`surrounding` is the least indentation that is further than that of the surroundings. -/
def readBlock? (literal : Bool) (surrounding : Nat) (input : Input) :
    Option (List Char × Input) := do
  let (header, width) ← readHeader? input.rest
  let input ← (input.skip width).finishLine?
  let indent ← match header.increment with
    | some n => some (surrounding - 1 + n)
    | none => do
      let detected ← detectIndent? 0 0 input.rest
      some (max detected (max surrounding 1))
  let (text, after) ← readLines? literal indent .empty false input.line 0 input.rest
  return (text.finished header.chomping, after)

end Arranger.Yaml
