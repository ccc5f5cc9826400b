import Arranger.Pattern.Error

/-!
# From tokens to patterns

The grammar of patterns, where a bar is a step and a run is the tokens of a term:

```text
pattern := bar (',' bar)*
bar     := run ((';' | '^') run)*          one of the two characters in a bar
run     := alias? beat suffix*
beat    := number | '-' number | 'i' (('+' | '-') integer)?
         | '@' number '_' number ('_' number)?
suffix  := letters number? | '>' number | '<' number | '!' | '?' | group
```

Each letter of a word is an effect, and a number behind a word belongs to its last letter. A
word in the place of a beat that starts with `i` is the position followed by effects.

## Main definitions

* `Arranger.Run`, `Arranger.Bar` — the tokens of a term and of a step.
* `Arranger.bars` — the tokens of a pattern, divided.
* `Arranger.Pattern.ofTokens` — the pattern that tokens denote.

## Implementation notes

Commas, mix characters and the end of the text never occur inside a term. The tokens are
therefore divided first, and every reader works on one run. What closes a run is kept beside it:
it is the token that a reader finds when the run is used up, and errors name it.
-/

namespace Arranger

/-! ## Runs and bars -/

/-- The tokens of one term. -/
structure Run where
  /-- The tokens, none of which ends a term. -/
  tokens : List Token
  /-- The token that follows. -/
  closing : Token
deriving DecidableEq

/-- The runs of one step. -/
structure Bar where
  /-- The first run. -/
  first : Run
  /-- The other runs. -/
  others : List Run
deriving DecidableEq

/-- How a token combines the terms around it, if that is what it does. -/
def Lexeme.mixMode? : Lexeme → Option MixMode
  | semicolon => some .sum
  | caret => some .product
  | _ => none

/-- The tokens cut behind each one that ends a term. Tokens behind the last of these belong to no
term and are left out. -/
def runs : List Token → List Run
  | [] => []
  | token :: tokens =>
    if token.lexeme.endsTerm then ⟨[], token⟩ :: runs tokens
    else match runs tokens with
      | [] => []
      | run :: more => { run with tokens := token :: run.tokens } :: more

/-- The runs joined to bars: a run that a mix character closes is in one bar with the next. -/
def joinRuns : List Run → List Bar
  | [] => []
  | run :: more =>
    match run.closing.lexeme.mixMode?, joinRuns more with
    | some _, bar :: bars => ⟨run, bar.first :: bar.others⟩ :: bars
    | _, bars => ⟨run, []⟩ :: bars

/-- The tokens of a pattern divided into steps. -/
def bars (tokens : List Token) : List Bar :=
  joinRuns (runs tokens)

/-! ## Single tokens

The readers below take the token that closes the run and the tokens that are left of it, and
return the tokens that are left after them. -/

/-- The error about the next token. -/
def unexpected (cause : Lexeme → PatternError.Cause) (closing : Token) (tokens : List Token) :
    PatternError :=
  let found := tokens.headD closing
  ⟨cause found.lexeme, found.position⟩

/-- A number. -/
def readNumber (closing : Token) : List Token → Except PatternError (Double × List Token)
  | ⟨.number value, _⟩ :: rest => .ok (value, rest)
  | tokens => .error (unexpected .expectedNumber closing tokens)

/-- A whole number that may be an offset. -/
def readInteger (closing : Token) : List Token → Except PatternError (Nat × List Token)
  | ⟨.number value, position⟩ :: rest =>
    if value.isWhole then
      if value ≤ Binary.ofNat maxOffset then .ok (value.toWord, rest)
      else .error ⟨.largeOffset value, position⟩
    else .error ⟨.expectedInteger (.number value), position⟩
  | tokens => .error (unexpected .expectedInteger closing tokens)

/-- The character `_`. -/
def readUnderscore (closing : Token) : List Token → Except PatternError (List Token)
  | ⟨.underscore, _⟩ :: rest => .ok rest
  | tokens => .error (unexpected (.expectedToken .underscore) closing tokens)

/-! ## Beat references -/

/-- The offset behind `i`. -/
def readOffset (closing : Token) : List Token → Except PatternError (Int × List Token)
  | ⟨.plus, _⟩ :: rest => do
    let (offset, rest) ← readInteger closing rest
    return (offset, rest)
  | ⟨.minus, _⟩ :: rest => do
    let (offset, rest) ← readInteger closing rest
    return (-offset, rest)
  | tokens => .ok (0, tokens)

/-- The step of a random range, which is one if none is written. -/
def readRandomStep (closing : Token) : List Token → Except PatternError (Double × List Token)
  | ⟨.underscore, _⟩ :: rest => readNumber closing rest
  | tokens => .ok (1, tokens)

/-- The random reference with the given range, if there is something to choose from. -/
def randomRef (position : Nat) (low high step : Double) : Except PatternError BeatRef :=
  if step ≤ 0 then .error ⟨.badRandomStep, position⟩
  else if high < low then .error ⟨.reversedRange low high, position⟩
  else match choices? low high step with
    | none => .error ⟨.tooManyChoices, position⟩
    | some _ => .ok (.random low high step)

/-- The range behind `@`, which is at `position`. -/
def readRandom (closing : Token) (position : Nat) (tokens : List Token) :
    Except PatternError (BeatRef × List Token) := do
  let (low, rest) ← readNumber closing tokens
  let rest ← readUnderscore closing rest
  let (high, rest) ← readNumber closing rest
  let (step, rest) ← readRandomStep closing rest
  return (← randomRef position low high step, rest)

/-- A beat reference. Letters behind `i` are given back as a word of their own. -/
def readRef (closing : Token) : List Token → Except PatternError (BeatRef × List Token)
  | ⟨.number value, _⟩ :: rest => .ok (.literal value, rest)
  | ⟨.minus, _⟩ :: rest => do
    let (value, rest) ← readNumber closing rest
    return (.literal (-value), rest)
  | ⟨.at, position⟩ :: rest => readRandom closing position rest
  | ⟨.word letters, position⟩ :: rest =>
    match letters.toList with
    | ['i'] => do
      let (offset, rest) ← readOffset closing rest
      return (.position offset, rest)
    | 'i' :: more => .ok (.position 0, ⟨.word (String.ofList more), position + 1⟩ :: rest)
    | _ => .error ⟨.expectedBeat (.word letters), position⟩
  | tokens => .error (unexpected .expectedBeat closing tokens)

/-! ## Suffixes -/

/-- The effects that the letters of a word spell, the last one with a number. -/
def readEffects (parameter : Option Double) (position : Nat) :
    List Char → Except PatternError (List Effect)
  | [] => .ok []
  | code :: codes =>
    match Effect.ofCode code (if codes.isEmpty then parameter else none) with
    | .error rejection => .error ⟨.badEffect rejection, position⟩
    | .ok effect => do
      let effects ← readEffects parameter (position + 1) codes
      return effect :: effects

namespace Beat

/-- The beat with the effects of a word behind its own. -/
def withWord (beat : Beat) (letters : String) (parameter : Option Double) (position : Nat) :
    Except PatternError Beat := do
  let effects ← readEffects parameter position letters.toList
  return { beat with effects := beat.effects ++ effects }

/-- The beat with a slice of a fraction of it. -/
def withSlice (beat : Beat) (slice : Double → Slice) (fraction : Double) (position : Nat) :
    Except PatternError Beat :=
  if 0 < fraction ∧ fraction ≤ 1 then
    if beat.slice.isSome then .error ⟨.slicedTwice, position⟩
    else .ok { beat with slice := some (slice fraction) }
  else .error ⟨.badFraction fraction, position⟩

/-- The beat in a shuffle group. -/
def withGroup (beat : Beat) (name : String) (position : Nat) : Except PatternError Beat :=
  if beat.group.isSome then .error ⟨.groupedTwice, position⟩
  else .ok { beat with group := some name }

end Beat

/-- The beat with all the suffixes of the run. -/
def readSuffixes (closing : Token) (beat : Beat) : List Token → Except PatternError Beat
  | [] => .ok beat
  | ⟨.word letters, position⟩ :: ⟨.number parameter, _⟩ :: rest => do
    readSuffixes closing (← beat.withWord letters (some parameter) position) rest
  | ⟨.word letters, position⟩ :: rest => do
    readSuffixes closing (← beat.withWord letters none position) rest
  | ⟨.greater, position⟩ :: ⟨.number fraction, _⟩ :: rest => do
    readSuffixes closing (← beat.withSlice .head fraction position) rest
  | ⟨.less, position⟩ :: ⟨.number fraction, _⟩ :: rest => do
    readSuffixes closing (← beat.withSlice .tail fraction position) rest
  | ⟨.greater, _⟩ :: rest => .error (unexpected .expectedNumber closing rest)
  | ⟨.less, _⟩ :: rest => .error (unexpected .expectedNumber closing rest)
  | ⟨.bang, _⟩ :: rest => readSuffixes closing { beat with silent := true } rest
  | ⟨.question, _⟩ :: rest => readSuffixes closing { beat with uncounted := true } rest
  | ⟨.group name, position⟩ :: rest => do
    readSuffixes closing (← beat.withGroup name position) rest
  | ⟨.source _, position⟩ :: _ => .error ⟨.lateAlias, position⟩
  | ⟨found, position⟩ :: _ => .error ⟨.unexpectedSuffix found, position⟩

/-! ## Terms, steps and patterns -/

/-- The alias in front of a beat. -/
def readAlias : List Token → Option String × List Token
  | ⟨.source name, _⟩ :: rest => (some name, rest)
  | tokens => (none, tokens)

/-- The term that a run spells. -/
def Run.read (run : Run) : Except PatternError Term := do
  let (source, rest) := readAlias run.tokens
  let (ref, rest) ← readRef run.closing rest
  let beat ← readSuffixes run.closing ⟨ref, none, [], false, false, none⟩ rest
  return ⟨source, beat⟩

/-- The terms behind the first, each one after a character of the given mode. The character
before the next run is `opening`. -/
def readParts (mode : MixMode) (opening : Token) : List Run → Except PatternError (List Term)
  | [] => .ok []
  | run :: more =>
    if opening.lexeme.mixMode? = some mode then do
      let term ← run.read
      let terms ← readParts mode run.closing more
      return term :: terms
    else .error ⟨.mixedModes, opening.position⟩

namespace Bar

/-- The position of the first token. -/
def position (bar : Bar) : Nat :=
  (bar.first.tokens.headD bar.first.closing).position

/-- The step that a bar spells. -/
def read (bar : Bar) : Except PatternError Step := do
  let first ← bar.first.read
  match bar.first.closing.lexeme.mixMode?, bar.others with
  | some mode, second :: more =>
    let others ← readParts mode bar.first.closing (second :: more)
    let parts := first :: others
    if parts.any (·.beat.group.isSome) then throw ⟨.groupInMix, bar.position⟩
    else return .mix mode parts
  | _, _ => return .single first

end Bar

/-- The pattern that tokens denote. -/
def Pattern.ofTokens (tokens : List Token) : Except PatternError Pattern := do
  let steps ← (bars tokens).mapM Bar.read
  return ⟨steps⟩

end Arranger
