import Arranger.Effect.Basic

/-!
# Patterns

A pattern is a sequence of steps that play one after another. A step is a single term or several
terms mixed over the same span of time, and a term is a beat with its effects and marks, taken
from the song at hand or from one named by an alias.

## Main definitions

* `Arranger.BeatRef` — which beat a term plays.
* `Arranger.Beat`, `Arranger.Term`, `Arranger.Step`, `Arranger.Pattern` — the layers of a pattern.
* `Arranger.Pattern.size` — how many steps count for the length of the pattern.
* `Arranger.Pattern.groups` — the shuffle groups with the slots of their members.

## Implementation notes

A mix holds terms and a term holds one beat, so neither mixes nor aliases nest: the types allow
only what can be written. The shuffle groups are computed from the steps and not stored beside
them.
-/

namespace Arranger

/-! ## Beat references -/

/-- The largest number of candidates that a random reference may draw from. -/
def maxChoices : Nat := 1048576

/-- The largest magnitude of the offset of a position reference. -/
def maxOffset : Nat := 4294967296

/-- Which beat is played. Beats are numbered from one. -/
inductive BeatRef where
  /-- The beat of a number, which may be fractional. -/
  | literal (number : Double)
  /-- The beat at the position of the current step, moved by an offset. -/
  | position (offset : Int)
  /-- One of the beats `low`, `low + step`, … up to `high`, at random. -/
  | random (low high step : Double)
deriving DecidableEq

/-- The number of candidates `low`, `low + step`, … up to `high`; there is none if the range is
not finite, is empty, or holds more than `maxChoices`. -/
def choices? (low high step : Double) : Option Nat :=
  let span := ((high - low) / step + slack).floor
  if !span.isFinite || decide (span < 0) || decide (Binary.ofNat maxChoices ≤ span) then none
  else some (span.toWord + 1)

/-! ## Beats and terms -/

/-- The part of a beat that is kept. -/
inductive Slice where
  /-- A fraction from the start. -/
  | head (fraction : Double)
  /-- A fraction up to the end. -/
  | tail (fraction : Double)
deriving DecidableEq

/-- A beat reference with its effects and marks. -/
structure Beat where
  /-- Which beat is played. -/
  ref : BeatRef
  /-- The part of it that is kept. -/
  slice : Option Slice := none
  /-- The effects, in the order in which they run. -/
  effects : List Effect := []
  /-- Whether the beat is silent but keeps its place. -/
  silent : Bool := false
  /-- Whether the beat does not count for the size of its level. -/
  uncounted : Bool := false
  /-- The shuffle group that the beat belongs to. -/
  group : Option String := none
deriving DecidableEq

/-- A beat of the song at hand, or of the song with an alias. -/
structure Term where
  /-- The alias of the song, if it is another one. -/
  source : Option String
  /-- The beat. -/
  beat : Beat
deriving DecidableEq

/-- Whether the term counts for the size of its level. -/
def Term.counts (term : Term) : Bool :=
  !term.beat.uncounted

/-- The number of terms that count. -/
def countedTerms (terms : List Term) : Nat :=
  (terms.filter Term.counts).length

/-! ## Steps -/

/-- How terms that sound together are combined. -/
inductive MixMode where
  /-- Sample by sample the sum. -/
  | sum
  /-- Sample by sample the product. -/
  | product
deriving DecidableEq

/-- The character between the parts of a mix. -/
def MixMode.symbol : MixMode → Char
  | sum => ';'
  | product => '^'

/-- A step of a pattern. -/
inductive Step where
  /-- One term. -/
  | single (term : Term)
  /-- Terms over the same span, combined. -/
  | mix (mode : MixMode) (parts : List Term)
deriving DecidableEq

namespace Step

/-- The terms of the step, in written order. -/
def terms : Step → List Term
  | single term => [term]
  | mix _ parts => parts

/-- Whether the step counts for the size of the pattern. -/
def counts (step : Step) : Bool :=
  step.terms.any Term.counts

/-- The shuffle group of the step. A mix belongs to none. -/
def group? : Step → Option String
  | single term => term.beat.group
  | mix _ _ => none

end Step

/-! ## Patterns -/

/-- A pattern. -/
structure Pattern where
  /-- The steps in written order. -/
  steps : List Step
deriving DecidableEq

/-- The steps that share a shuffle group. -/
structure ShuffleGroup where
  /-- The name of the group. -/
  name : String
  /-- The indices of its steps, in written order. -/
  slots : List Nat
deriving DecidableEq

/-- The groups with one more slot for a name: the slot joins the group of that name, or starts a
new one at the end. -/
def addSlot (name : String) (slot : Nat) : List ShuffleGroup → List ShuffleGroup
  | [] => [⟨name, [slot]⟩]
  | group :: groups =>
    if group.name = name then { group with slots := group.slots ++ [slot] } :: groups
    else group :: addSlot name slot groups

/-- The groups after the steps from index `slot` on have joined theirs. -/
def joinGroups (groups : List ShuffleGroup) (slot : Nat) : List Step → List ShuffleGroup
  | [] => groups
  | step :: steps =>
    match step.group? with
    | some name => joinGroups (addSlot name slot groups) (slot + 1) steps
    | none => joinGroups groups (slot + 1) steps

/-- The list without the members that occurred before. -/
def keepFirst (seen : List String) : List String → List String
  | [] => []
  | name :: names =>
    if name ∈ seen then keepFirst seen names else name :: keepFirst (name :: seen) names

namespace Pattern

/-- How many steps count. -/
def size (pattern : Pattern) : Nat :=
  (pattern.steps.filter Step.counts).length

/-- The shuffle groups in order of their first member. -/
def groups (pattern : Pattern) : List ShuffleGroup :=
  joinGroups [] 0 pattern.steps

/-- All terms in written order. -/
def terms (pattern : Pattern) : List Term :=
  pattern.steps.flatMap Step.terms

/-- The aliases in order of their first occurrence. -/
def aliases (pattern : Pattern) : List String :=
  keepFirst [] (pattern.terms.filterMap Term.source)

end Pattern

end Arranger
