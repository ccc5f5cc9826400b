import Arranger.Plan.Order
import Arranger.Plan.Resolving
import Arranger.Song.Table

/-!
# Planning

Planning goes through a pattern in the order of play and settles for each step what it plays. It
carries along how many steps were played and how far the random stream was used, and both are
known also where planning fails.

## Main definitions

* `Arranger.Stage` — the songs and the way of repeating.
* `Arranger.Cursor` — how far the playing has come.
* `Arranger.Cue` — a step that is due.
* `Arranger.Stage.plan` — the plans of a pattern.

## Implementation notes

A pattern that fills a song is played several times with growing offsets. All its repetitions are
laid out beforehand, as one list of cues, and planned in one pass.
-/

namespace Arranger

/-- What is on hand for planning. -/
structure Stage where
  /-- The song that terms without an alias play. -/
  primary : Song
  /-- The songs that have an alias. -/
  table : SongTable
  /-- How often the pattern plays. -/
  repetition : Repeat
deriving DecidableEq

/-- How far the playing has come. -/
structure Cursor where
  /-- The random words that are left. -/
  random : Stream
  /-- The number of steps that were played. -/
  position : Nat
deriving DecidableEq

/-- A step that is due. -/
structure Cue where
  /-- The step. -/
  step : Step
  /-- The number of counted steps of its pattern. -/
  size : Nat
  /-- What is added to the numbers of its literal and random references. -/
  offset : Double
deriving DecidableEq

/-- The cursor at the start of the stream of a seed. -/
def Cursor.ofSeed (seed : UInt64) : Cursor :=
  ⟨.ofSeed seed, 0⟩

/-- The results of `f` on the members of a list, from left to right. The state passes from one to
the next, and the first failure ends it. -/
def collect {α β σ ε : Type} (f : α → σ → Except ε (Option β) × σ) :
    List α → σ → Except ε (List β) × σ
  | [], state => (.ok [], state)
  | x :: xs, state =>
    match f x state with
    | (.error error, state) => (.error error, state)
    | (.ok result, state) =>
      match collect f xs state with
      | (.error error, state) => (.error error, state)
      | (.ok results, state) => (.ok (result.toList ++ results), state)

namespace SongTable

/-- The song of an alias, which the table must have. -/
def resolve (table : SongTable) (name : String) : Except Fault Song :=
  match table.get? name with
  | some song => .ok song
  | none => .error (.unknownAlias name)

end SongTable

namespace Stage

/-! ## Terms -/

/-- The song that a term plays. -/
def songOf (stage : Stage) (term : Term) : Except Fault Song :=
  match term.source with
  | some name => stage.table.resolve name
  | none => .ok stage.primary

/-- The beat that is played for a beat number: where the pattern plays once, the number wrapped into
the map; where it fills the song, the number itself or, outside the map, nothing. -/
def beatFor (stage : Stage) (map : Beatmap) (size : Nat) (requested : Double) :
    Except Fault (Option Double) :=
  match stage.repetition with
  | .once => (map.wrapBeat size requested).map some
  | .fill => .ok (if map.containsBeat requested then some requested else none)

/-- What a term plays on a beat of a song. -/
def leafOf (song : Song) (term : Term) (beat : Double) : Except Fault Leaf :=
  match song.beatmap.window? beat with
  | none => .error (.beatOutOfRange beat song.beatmap.beatCount)
  | some (start, stop) =>
    let (start, stop) := term.beat.cut start stop
    .ok (if term.beat.silent then .silence (stop - start)
      else .extract term.source song.recording start stop term.beat.effects)

/-- What a term plays for a beat number of a song. -/
def leafFor (stage : Stage) (size : Nat) (song : Song) (term : Term) (requested : Double) :
    Except Fault (Option Leaf) := do
  match ← stage.beatFor song.beatmap size requested with
  | some beat => return some (← leafOf song term beat)
  | none => return none

/-- What a term plays. -/
def planTerm (stage : Stage) (place : Place) (term : Term) (stream : Stream) :
    Except Fault (Option Leaf) × Stream :=
  match stage.songOf term with
  | .error fault => (.error fault, stream)
  | .ok song =>
    let (requested, stream) := term.beat.ref.resolve place song.beatmap.beatCount stream
    (requested.bind (stage.leafFor place.size song term), stream)

/-! ## Steps -/

/-- A mix of leaves, of which there must be one. -/
def mixOf? (mode : MixMode) (leaves : List Leaf) : Option Plan :=
  if leaves.isEmpty then none else some (.mix mode leaves)

/-- What a step plays. In a mix, the parts are the siblings that count. -/
def planStep (stage : Stage) (place : Place) (step : Step) (stream : Stream) :
    Except Fault (Option Plan) × Stream :=
  match step with
  | .single term =>
    let (leaf, stream) := stage.planTerm place term stream
    (leaf.map (Option.map .single), stream)
  | .mix mode parts =>
    let place := { place with size := countedTerms parts }
    let (leaves, stream) := collect (stage.planTerm place) parts stream
    (leaves.map (mixOf? mode), stream)

/-- What the step of a cue plays, and the cursor behind it. A step that fails is not counted. -/
def planCue (stage : Stage) (cue : Cue) (cursor : Cursor) :
    Except Fault (Option Plan) × Cursor :=
  match stage.planStep ⟨cue.size, cue.offset, cursor.position⟩ cue.step cursor.random with
  | (.error fault, random) => (.error fault, { cursor with random })
  | (.ok plan, random) => (.ok plan, ⟨random, cursor.position + 1⟩)

/-! ## Patterns -/

/-- How often a pattern of `size` counted steps plays. -/
def repetitions (stage : Stage) (size : Nat) : Nat :=
  match stage.repetition with
  | .once => 1
  | .fill =>
    if size = 0 then 1 else max 1 ((stage.primary.beatmap.beatCount + (size - 1)) / size)

/-- The steps as they are due in each of `count` repetitions. -/
def cues (size count : Nat) (steps : List Step) : List Cue :=
  (List.range count).flatMap fun k => steps.map fun step => ⟨step, size, Binary.ofNat (k * size)⟩

/-- The plans of a pattern from a cursor on, and the cursor behind them. -/
def plan (stage : Stage) (pattern : Pattern) (cursor : Cursor) :
    Except Fault (List Plan) × Cursor :=
  let (steps, random) := pattern.rearranged cursor.random
  collect stage.planCue (cues pattern.size (stage.repetitions pattern.size) steps)
    { cursor with random }

end Stage

end Arranger
