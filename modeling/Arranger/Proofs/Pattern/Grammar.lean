import Mathlib.Tactic.Basic
import Mathlib.Data.Int.Notation
import Mathlib.Data.List.Basic
import Arranger.Pattern.Reading

/-!
# The grammar of patterns

Parse trees of the pattern language, one type for each rule of the grammar. A tree yields a list of
lexemes, may or may not meet the conditions that go with the rules, and denotes a pattern.

## Main definitions

* `Arranger.Grammar.Word`, `Suffix`, `Reference`, `Phrase`, `Group`, `Tree` — the parse trees.
* `Arranger.Grammar.Tree.lexemes` — the lexemes that a tree spells.
* `Arranger.Grammar.Tree.Admissible` — the conditions on numbers, effects, slices and groups.
* `Arranger.Grammar.Tree.pattern` — the pattern that a tree denotes.
-/

namespace Arranger

/-- The lexeme between the parts of a mix. -/
def MixMode.lexeme : MixMode → Lexeme
  | sum => .semicolon
  | product => .caret

namespace Grammar

/-- The lexemes of something that may be left out. -/
def optional {α : Type} (lexemes : α → List Lexeme) : Option α → List Lexeme
  | none => []
  | some part => lexemes part

/-! ## Words of effects -/

/-- Letters that spell an effect each, and the number directly behind them. -/
structure Word where
  /-- The first letter. -/
  first : Char
  /-- The other letters. -/
  more : List Char
  /-- The number, which belongs to the last letter. -/
  parameter : Option Double
deriving DecidableEq

/-- The letters with the numbers that belong to them. -/
def numbered (parameter : Option Double) : List Char → List (Char × Option Double)
  | [] => []
  | letter :: letters =>
    (letter, if letters.isEmpty then parameter else none) :: numbered parameter letters

namespace Word

/-- The letters. -/
def letters (word : Word) : List Char :=
  word.first :: word.more

/-- The lexemes of a word with more letters in front. -/
def lexemes (lead : List Char) (word : Word) : List Lexeme :=
  .word (String.ofList (lead ++ word.letters)) :: optional (fun value => [.number value]) word.parameter

/-- Every letter is an effect. -/
def Admissible (word : Word) : Prop :=
  ∀ code ∈ numbered word.parameter word.letters, ∃ effect, Effect.ofCode code.1 code.2 = .ok effect

/-- The effects of the letters. -/
def effects (word : Word) : List Effect :=
  (numbered word.parameter word.letters).filterMap fun code =>
    (Effect.ofCode code.1 code.2).toOption

end Word

/-! ## Suffixes -/

/-- What can stand behind a beat. -/
inductive Suffix where
  /-- Effects. -/
  | effects (word : Word)
  /-- A slice from the start. -/
  | head (fraction : Double)
  /-- A slice up to the end. -/
  | tail (fraction : Double)
  /-- The mark of a silent beat. -/
  | silent
  /-- The mark of a beat that does not count. -/
  | uncounted
  /-- A group mark. -/
  | group (name : String)
deriving DecidableEq

namespace Suffix

/-- The lexemes of a suffix. -/
def lexemes : Suffix → List Lexeme
  | effects word => word.lexemes []
  | head fraction => [.greater, .number fraction]
  | tail fraction => [.less, .number fraction]
  | silent => [.bang]
  | uncounted => [.question]
  | group name => [.group name]

/-- The slice that a suffix asks for. -/
def slice? : Suffix → Option Slice
  | head fraction => some (.head fraction)
  | tail fraction => some (.tail fraction)
  | _ => none

/-- The group that a suffix names. -/
def group? : Suffix → Option String
  | group name => some name
  | _ => none

/-- The effects that a suffix adds. -/
def effectList : Suffix → List Effect
  | effects word => word.effects
  | _ => []

/-- Effects exist, and slices are of a positive fraction of at most one. -/
def Admissible : Suffix → Prop
  | effects word => word.Admissible
  | head fraction | tail fraction => 0 < fraction ∧ fraction ≤ 1
  | _ => True

end Suffix

/-! ## Beat references -/

/-- The sign of an offset. -/
inductive Sign where
  /-- Towards the end. -/
  | plus
  /-- Towards the start. -/
  | minus
deriving DecidableEq

namespace Sign

/-- The lexeme of a sign. -/
def lexeme : Sign → Lexeme
  | plus => .plus
  | minus => .minus

/-- The integer of a sign and a magnitude. -/
def apply (magnitude : ℕ) : Sign → ℤ
  | plus => magnitude
  | minus => -magnitude

end Sign

/-- What can stand for a beat. -/
inductive Reference where
  /-- A number. -/
  | number (value : Double)
  /-- A number behind a minus sign. -/
  | negative (value : Double)
  /-- The position, with or without an offset. -/
  | position (offset : Option (Sign × Double))
  /-- The position in one word with the effects behind it. -/
  | glued (word : Word)
  /-- A random range, with or without a step. -/
  | random (low high : Double) (step : Option Double)
deriving DecidableEq

namespace Reference

/-- The lexemes of an offset. -/
def offsetLexemes (offset : Sign × Double) : List Lexeme :=
  [offset.1.lexeme, .number offset.2]

/-- The lexemes of a step. -/
def stepLexemes (step : Double) : List Lexeme :=
  [.underscore, .number step]

/-- The lexemes of a reference. -/
def lexemes : Reference → List Lexeme
  | number value => [.number value]
  | negative value => [.minus, .number value]
  | position offset => .word "i" :: optional offsetLexemes offset
  | glued word => word.lexemes ['i']
  | random low high step =>
    [.at, .number low, .underscore, .number high] ++ optional stepLexemes step

/-- An offset is whole and not too large, a word is one of effects, and a range has a positive
step, ends the right way round and no more than `maxChoices` candidates. -/
def Admissible : Reference → Prop
  | position offset =>
    ∀ signed ∈ offset, signed.2.isWhole = true ∧ signed.2 ≤ Binary.ofNat maxOffset
  | glued word => word.Admissible
  | random low high step =>
    0 < step.getD 1 ∧ low ≤ high ∧
      ∃ count, choices? low high (step.getD 1) = some count ∧ count ≤ maxChoices
  | _ => True

/-- The beat reference that is denoted. -/
def ref : Reference → BeatRef
  | number value => .literal value
  | negative value => .literal (-value)
  | position none => .position 0
  | position (some (sign, value)) => .position (sign.apply value.toWord)
  | glued _ => .position 0
  | random low high step => .random low high (step.getD 1)

/-- The effects that are glued to a reference. -/
def effectList : Reference → List Effect
  | glued word => word.effects
  | _ => []

end Reference

/-! ## Terms, steps and patterns -/

/-- A term: a beat with its suffixes in any order, and an alias in front or not. -/
structure Phrase where
  /-- The alias. -/
  source : Option String
  /-- The beat. -/
  reference : Reference
  /-- The suffixes. -/
  suffixes : List Suffix
deriving DecidableEq

namespace Phrase

/-- The lexemes of a term. -/
def lexemes (phrase : Phrase) : List Lexeme :=
  optional (fun name => [.source name]) phrase.source ++ phrase.reference.lexemes
    ++ phrase.suffixes.flatMap Suffix.lexemes

/-- The slices that are asked for. -/
def slices (phrase : Phrase) : List Slice :=
  phrase.suffixes.filterMap Suffix.slice?

/-- The groups that are named. -/
def groups (phrase : Phrase) : List String :=
  phrase.suffixes.filterMap Suffix.group?

/-- The parts are admissible, and there is no more than one slice and one group mark. -/
structure Admissible (phrase : Phrase) : Prop where
  /-- The beat is admissible. -/
  reference : phrase.reference.Admissible
  /-- Every suffix is admissible. -/
  suffixes : ∀ suffix ∈ phrase.suffixes, suffix.Admissible
  /-- There is no second slice. -/
  slices_le : phrase.slices.length ≤ 1
  /-- There is no second group mark. -/
  groups_le : phrase.groups.length ≤ 1

/-- The term that is denoted. -/
def term (phrase : Phrase) : Term where
  source := phrase.source
  beat :=
    { ref := phrase.reference.ref
      slice := phrase.slices.head?
      effects := phrase.reference.effectList ++ phrase.suffixes.flatMap Suffix.effectList
      silent := phrase.suffixes.contains .silent
      uncounted := phrase.suffixes.contains .uncounted
      group := phrase.groups.head? }

end Phrase

/-- A step: a single term, or several with one mix character. -/
inductive Group where
  /-- One term. -/
  | single (phrase : Phrase)
  /-- Two or more terms. -/
  | mixed (mode : MixMode) (first second : Phrase) (more : List Phrase)
deriving DecidableEq

namespace Group

/-- The lexemes of terms, each with the mix character in front. -/
def partLexemes (mode : MixMode) (phrases : List Phrase) : List Lexeme :=
  phrases.flatMap fun phrase => mode.lexeme :: phrase.lexemes

/-- The lexemes of one term more. -/
lemma partLexemes_cons (mode : MixMode) (phrase : Phrase) (phrases : List Phrase) :
    partLexemes mode (phrase :: phrases) =
      mode.lexeme :: (phrase.lexemes ++ partLexemes mode phrases) := rfl

/-- The lexemes of a step. -/
def lexemes : Group → List Lexeme
  | single phrase => phrase.lexemes
  | mixed mode first second more => first.lexemes ++ partLexemes mode (second :: more)

/-- The terms are admissible, and there is no group mark in a mix. -/
def Admissible : Group → Prop
  | single phrase => phrase.Admissible
  | mixed _ first second more =>
    ∀ phrase ∈ first :: second :: more, phrase.Admissible ∧ phrase.groups = []

/-- The step that is denoted. -/
def step : Group → Step
  | single phrase => .single phrase.term
  | mixed mode first second more => .mix mode ((first :: second :: more).map Phrase.term)

end Group

/-- A pattern: steps with commas between them. -/
structure Tree where
  /-- The first step. -/
  first : Group
  /-- The other steps. -/
  more : List Group
deriving DecidableEq

namespace Tree

/-- The lexemes of steps, each with a comma in front, up to the end of the text. -/
def restLexemes (groups : List Group) : List Lexeme :=
  groups.flatMap (fun group => .comma :: group.lexemes) ++ [.stop]

/-- The lexemes of one step more. -/
lemma restLexemes_cons (group : Group) (groups : List Group) :
    restLexemes (group :: groups) = .comma :: (group.lexemes ++ restLexemes groups) := by
  simp [restLexemes]

/-- The lexemes of a pattern. -/
def lexemes (tree : Tree) : List Lexeme :=
  tree.first.lexemes ++ restLexemes tree.more

/-- All steps are admissible. -/
def Admissible (tree : Tree) : Prop :=
  ∀ group ∈ tree.first :: tree.more, group.Admissible

/-- The pattern that is denoted. -/
def pattern (tree : Tree) : Pattern :=
  ⟨(tree.first :: tree.more).map Group.step⟩

end Tree

end Grammar

end Arranger
