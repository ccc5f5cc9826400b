import Arranger.Number.Integral
import Arranger.Number.Notation

/-!
# Effects

An effect transforms a segment. In a pattern it is one letter, with or without a number:

| letter | effect     | number (default)                            |
|--------|------------|---------------------------------------------|
| `s`    | speed      | factor from 1/64 on (2)                     |
| `r`    | reverse    | none                                        |
| `v`    | volume     | gain (0.5)                                  |
| `d`    | downsample | how long a sample is held, from 1 on (8)    |
| `b`    | bitcrush   | bit depth from 1 to 24 (4)                  |
| `g`    | gradient   | passes from 1 to 8 (1)                      |
| `c`    | channel    | none swaps two channels, 0 or 1 isolates one |

## Main definitions

* `Arranger.Effect` — the effects.
* `Arranger.Effect.ofCode` — the effect of a letter and an optional number.
* `Arranger.Effect.code`, `parameter?`, `write` — an effect as it is written.
-/

namespace Arranger

/-- A transformation of a segment. -/
inductive Effect where
  /-- Played faster by a factor, which shortens it. -/
  | speed (factor : Double)
  /-- Played backwards. -/
  | reverse
  /-- Multiplied by a gain. -/
  | volume (gain : Sample)
  /-- Each sample held for a number of frames. -/
  | downsample (hold : Nat)
  /-- Rounded to the steps of a bit depth. -/
  | bitcrush (depth : Nat)
  /-- Differenced a number of times. -/
  | gradient (passes : Nat)
  /-- The first two channels exchanged. -/
  | swap
  /-- All channels but one silenced. -/
  | isolate (channel : Nat)
deriving DecidableEq

namespace Effect

/-- Why a letter and a number are no effect. -/
inductive Rejection where
  /-- No effect has the letter. -/
  | unknown (code : Char)
  /-- The number is infinite or not a number. -/
  | notFinite (code : Char)
  /-- The speed factor is too small. -/
  | slowSpeed
  /-- Reversing has no number. -/
  | reverseParameter
  /-- Samples are held for less than one frame. -/
  | shortHold
  /-- The bit depth is out of range. -/
  | badDepth
  /-- The number of passes is out of range. -/
  | badPasses
  /-- The channel is neither the left nor the right one. -/
  | badChannel
deriving DecidableEq

namespace Rejection

/-- The letter that was rejected. -/
def code : Rejection → Char
  | unknown code => code
  | notFinite code => code
  | slowSpeed => 's'
  | reverseParameter => 'r'
  | shortHold => 'd'
  | badDepth => 'b'
  | badPasses => 'g'
  | badChannel => 'c'

/-- Whether the letter itself is the problem. -/
def isUnknown : Rejection → Bool
  | unknown _ => true
  | _ => false

/-- What is wrong with the number. -/
def reason : Rejection → String
  | unknown _ => ""
  | notFinite _ => "parameter must be a finite number"
  | slowSpeed => "speed factor must be at least 1/64"
  | reverseParameter => "reverse takes no parameter"
  | shortHold => "downsample factor must be at least 1"
  | badDepth => "bit depth must be between 1 and 24"
  | badPasses => "gradient passes must be between 1 and 8"
  | badChannel => "channel must be 0 (left) or 1 (right)"

/-- The rejection in words. -/
def message (rejection : Rejection) : String :=
  if rejection.isUnknown then s!"unknown effect '{rejection.code}'"
  else s!"effect '{rejection.code}': {rejection.reason}"

end Rejection

/-! ## Reading -/

/-- The smallest speed factor: no segment is stretched more than 64 times. -/
def minSpeed : Double := 1 / 64

/-- The whole number nearest to `x`, if it is within the bounds. -/
def wholeWithin? (low high x : Double) : Option Nat :=
  let n := x.roundAway
  if low ≤ n ∧ n ≤ high then some n.toWord else none

/-- The speed effect for a factor. -/
def ofSpeed (factor : Double) : Except Rejection Effect :=
  if factor < minSpeed then .error .slowSpeed else .ok (.speed factor)

/-- The downsample effect for a number of frames. -/
def ofHold (hold : Double) : Except Rejection Effect :=
  let n := hold.roundAway
  if n < 1 then .error .shortHold else .ok (.downsample n.toWord)

/-- The bitcrush effect for a depth. -/
def ofDepth (depth : Double) : Except Rejection Effect :=
  match wholeWithin? 1 24 depth with
  | some n => .ok (.bitcrush n)
  | none => .error .badDepth

/-- The gradient effect for a number of passes. -/
def ofPasses (passes : Double) : Except Rejection Effect :=
  match wholeWithin? 1 8 passes with
  | some n => .ok (.gradient n)
  | none => .error .badPasses

/-- The isolate effect for a channel. -/
def ofChannel (channel : Double) : Except Rejection Effect :=
  if channel.numEq 0 then .ok (.isolate 0)
  else if channel.numEq 1 then .ok (.isolate 1)
  else .error .badChannel

/-- The effect of a letter and an optional number. A number must be finite whatever the
letter. -/
def ofCode (code : Char) (parameter : Option Double) : Except Rejection Effect :=
  if parameter.any (!·.isFinite) then .error (.notFinite code)
  else match code with
    | 's' => ofSpeed (parameter.getD 2)
    | 'r' => if parameter.isSome then .error .reverseParameter else .ok .reverse
    | 'v' => .ok (.volume (parameter.getD (1 / 2)).convert)
    | 'd' => ofHold (parameter.getD 8)
    | 'b' => ofDepth (parameter.getD 4)
    | 'g' => ofPasses (parameter.getD 1)
    | 'c' => match parameter with
      | none => .ok .swap
      | some channel => ofChannel channel
    | _ => .error (.unknown code)

/-! ## Writing -/

/-- The letter of an effect. -/
def code : Effect → Char
  | speed _ => 's'
  | reverse => 'r'
  | volume _ => 'v'
  | downsample _ => 'd'
  | bitcrush _ => 'b'
  | gradient _ => 'g'
  | swap => 'c'
  | isolate _ => 'c'

/-- The number of an effect. -/
def parameter? : Effect → Option Double
  | speed factor => some factor
  | reverse => none
  | volume gain => some gain.convert
  | downsample hold => some (Binary.ofNat hold)
  | bitcrush depth => some (Binary.ofNat depth)
  | gradient passes => some (Binary.ofNat passes)
  | swap => none
  | isolate channel => some (Binary.ofNat channel)

/-- The characters of an effect in a pattern. -/
def write (effect : Effect) : List Char :=
  effect.code :: match effect.parameter? with
    | some x => Notation.plain.write x
    | none => []

end Effect

end Arranger
