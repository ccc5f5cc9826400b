import Arranger.Pattern.Basic
import Arranger.Random.Draw

/-!
# The order of play

The steps of a shuffle group change places among themselves; all other steps stay where they are.

## Main definitions

* `Arranger.Pattern.playOrder` — the indices of the steps in the order of play.
* `Arranger.Pattern.rearranged` — the steps in the order of play.
-/

namespace Arranger

/-- The list with new members at some places. -/
def placeAll (order : List Nat) (placed : List (Nat × Nat)) : List Nat :=
  placed.foldl (fun order (slot, member) => order.set slot member) order

/-- The order with the members of each group shuffled over the slots of the group. -/
def shuffleGroups : List ShuffleGroup → List Nat → Stream → List Nat × Stream
  | [], order, stream => (order, stream)
  | group :: groups, order, stream =>
    let (members, stream) := stream.shuffle group.slots
    shuffleGroups groups (placeAll order (group.slots.zip members)) stream

namespace Pattern

/-- The indices of the steps in the order of play. -/
def playOrder (pattern : Pattern) (stream : Stream) : List Nat × Stream :=
  shuffleGroups pattern.groups (List.range pattern.steps.length) stream

/-- The steps in the order of play. -/
def rearranged (pattern : Pattern) (stream : Stream) : List Step × Stream :=
  let (order, stream) := pattern.playOrder stream
  (order.filterMap fun index => pattern.steps[index]?, stream)

end Pattern

end Arranger
