import Arranger.Audio.Recording
import Arranger.Effect.Basic
import Arranger.Pattern.Basic

/-!
# Plans

A plan says what one step of a pattern plays, with everything settled that depends on the beats,
on chance and on the steps before it.

## Main definitions

* `Arranger.Leaf` — a cut out of a recording, or silence.
* `Arranger.Plan` — a leaf, or several that are mixed.
* `Arranger.Repeat` — how often a pattern plays.
-/

namespace Arranger

/-- How often a pattern plays. -/
inductive Repeat where
  /-- Once. -/
  | once
  /-- As often as it takes to cover all beats of the song. -/
  | fill
deriving DecidableEq

/-- The way of repeating of a name. -/
def Repeat.ofName? : String → Option Repeat
  | "once" => some .once
  | "fill" => some .fill
  | _ => none

/-- A stretch of sound, before it is made. -/
inductive Leaf where
  /-- Frames of the recording of a song, with effects. The song is the one of the alias, or
  without an alias the one at hand. -/
  | extract (source : Option String) (recording : Recording) (start stop : Nat)
      (effects : List Effect)
  /-- Silence. -/
  | silence (frames : Nat)
deriving DecidableEq

/-- What a step plays. -/
inductive Plan where
  /-- One stretch of sound. -/
  | single (leaf : Leaf)
  /-- Stretches of sound that are combined. -/
  | mix (mode : MixMode) (leaves : List Leaf)
deriving DecidableEq

end Arranger
