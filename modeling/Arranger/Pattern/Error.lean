import Arranger.Effect.Basic
import Arranger.Pattern.Basic
import Arranger.Pattern.Token

/-!
# Errors in patterns

What can be wrong with the text of a pattern, and where.

## Main definitions

* `Arranger.PatternError.Cause` — what is wrong.
* `Arranger.PatternError` — a cause at a position of the text.
* `Arranger.PatternError.message` — the error in words.
-/

namespace Arranger

/-- What is wrong with the text of a pattern. -/
inductive PatternError.Cause where
  /-- A closing bracket without an opening one. -/
  | unmatchedBracket
  /-- A character that starts no token. -/
  | unexpectedChar (char : Char)
  /-- An opening bracket that is never closed. -/
  | unclosedBracket
  /-- An opening bracket inside brackets. -/
  | nestedBracket
  /-- Brackets with nothing but blanks between them. -/
  | emptyAlias
  /-- A character that no alias may have. -/
  | badAliasChar (char : Char)
  /-- A group mark without a name. -/
  | missingGroupName
  /-- Two kinds of mixing in one step. -/
  | mixedModes
  /-- A group mark inside a mix. -/
  | groupInMix
  /-- No beat where one should start. -/
  | expectedBeat (found : Lexeme)
  /-- No number where one is needed. -/
  | expectedNumber (found : Lexeme)
  /-- No whole number where one is needed. -/
  | expectedInteger (found : Lexeme)
  /-- Some other token than the one that must follow. -/
  | expectedToken (needed found : Lexeme)
  /-- An offset that is too large. -/
  | largeOffset (offset : Double)
  /-- A step of a random range that is not positive. -/
  | badRandomStep
  /-- A random range whose ends are the wrong way round. -/
  | reversedRange (low high : Double)
  /-- A random range with too many candidates. -/
  | tooManyChoices
  /-- A slice that is not a fraction. -/
  | badFraction (fraction : Double)
  /-- A second slice. -/
  | slicedTwice
  /-- A second group mark. -/
  | groupedTwice
  /-- An alias behind the beat. -/
  | lateAlias
  /-- A token that no beat can have. -/
  | unexpectedSuffix (found : Lexeme)
  /-- A letter and number that are no effect. -/
  | badEffect (rejection : Effect.Rejection)
deriving DecidableEq

/-- An error in the text of a pattern. -/
structure PatternError where
  /-- What is wrong. -/
  cause : PatternError.Cause
  /-- The number of characters before the place. -/
  position : Nat
deriving DecidableEq

namespace PatternError

/-- The cause in words. -/
def Cause.message : Cause → String
  | unmatchedBracket => "unmatched ']'"
  | unexpectedChar char => s!"unexpected character: '{char}'"
  | unclosedBracket => "unclosed bracket"
  | nestedBracket => "nested '[' in source alias"
  | emptyAlias => "empty source alias"
  | badAliasChar char => s!"invalid character '{char}' in source alias"
  | missingGroupName => "expected group id after '#'"
  | mixedModes => "cannot mix ';' and '^' in one group"
  | groupInMix => "shuffle groups apply to whole steps, not to mixed parts"
  | expectedBeat found => s!"expected beat number, 'i' or '@', got {found.tag}"
  | expectedNumber found => s!"expected number, got {found.tag}"
  | expectedInteger found => s!"expected integer, got {found.tag}"
  | expectedToken needed found => s!"expected {needed.tag}, got {found.tag}"
  | largeOffset offset => s!"offset {offset.toText} exceeds {maxOffset}"
  | badRandomStep => "random step must be positive"
  | reversedRange low high =>
    s!"random range low ({low.toText}) exceeds high ({high.toText})"
  | tooManyChoices => s!"random range holds more than {maxChoices} choices"
  | badFraction fraction => s!"slice fraction must be in (0, 1], got {fraction.toText}"
  | slicedTwice => "beat already sliced"
  | groupedTwice => "beat already in a shuffle group"
  | lateAlias => "source alias must come before the beat"
  | unexpectedSuffix found => s!"unexpected {found.tag} after beat"
  | badEffect rejection => rejection.message

/-- Whether the text names an effect that does not exist; all else is a matter of syntax. -/
def isUnknownEffect (error : PatternError) : Bool :=
  match error.cause with
  | .badEffect rejection => rejection.isUnknown
  | _ => false

/-- The identifier of the kind of error. -/
def code (error : PatternError) : String :=
  if error.isUnknownEffect then "UNKNOWN_EFFECT" else "PATTERN_SYNTAX"

/-- The error in words. -/
def message (error : PatternError) : String :=
  let kind := if error.isUnknownEffect then "unknown effect" else "syntax error"
  s!"[{error.position}] {kind}: {error.cause.message}"

end PatternError

end Arranger
