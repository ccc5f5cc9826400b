import Arranger.Pattern.Basic

/-!
# Writing patterns

The canonical text of a pattern: no blanks, and for each beat the reference, the slice, the
effects, the marks and the group, in that order.

## Main definitions

* `Arranger.Beat.write`, `Term.write`, `Step.write`, `Pattern.write` — the characters.
* `Arranger.Pattern.text` — the text.
-/

namespace Arranger

/-- The characters of a number in a pattern. -/
def writeNumber (x : Double) : List Char :=
  Notation.plain.write x

/-- The characters of a beat reference. -/
def BeatRef.write : BeatRef → List Char
  | literal number => writeNumber number
  | position (.ofNat 0) => ['i']
  | position (.ofNat offset) => 'i' :: '+' :: Nat.toDigits 10 offset
  | position (.negSucc offset) => 'i' :: '-' :: Nat.toDigits 10 (offset + 1)
  | random low high step =>
    '@' :: writeNumber low ++ '_' :: writeNumber high ++ '_' :: writeNumber step

/-- The characters of a slice. -/
def Slice.write : Slice → List Char
  | head fraction => '>' :: writeNumber fraction
  | tail fraction => '<' :: writeNumber fraction

/-- The characters of a group mark. -/
def writeGroup (name : String) : List Char :=
  '#' :: name.toList

/-- The characters of a beat. -/
def Beat.write (beat : Beat) : List Char :=
  beat.ref.write
    ++ (match beat.slice with | some slice => slice.write | none => [])
    ++ beat.effects.flatMap Effect.write
    ++ (if beat.silent then ['!'] else [])
    ++ (if beat.uncounted then ['?'] else [])
    ++ (match beat.group with | some name => writeGroup name | none => [])

/-- The characters of a term. -/
def Term.write (term : Term) : List Char :=
  match term.source with
  | some name => '[' :: name.toList ++ ']' :: term.beat.write
  | none => term.beat.write

/-- The pieces with a character between each two. -/
def joinWith (separator : Char) : List (List Char) → List Char
  | [] => []
  | [piece] => piece
  | piece :: pieces => piece ++ separator :: joinWith separator pieces

/-- The characters of a step. -/
def Step.write : Step → List Char
  | single term => term.write
  | mix mode parts => joinWith mode.symbol (parts.map Term.write)

namespace Pattern

/-- The characters of a pattern. -/
def write (pattern : Pattern) : List Char :=
  joinWith ',' (pattern.steps.map Step.write)

/-- The text of a pattern. -/
def text (pattern : Pattern) : String :=
  String.ofList pattern.write

end Pattern

end Arranger
