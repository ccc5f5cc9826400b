import Arranger.Proofs.Plan.Notes
import Arranger.Render.Basic

/-!
# Operations that are not defined for all values

On a machine a number can be shifted by less than its width, a smaller number taken from a larger
one, a choice made among one or more numbers, a range cut out of a list that has it, a list divided
into chunks of one or more members, and a number kept between bounds that are the right way round.
A rendering does such operations with values that come from the text of the pattern, from the maps
of the songs and from the requested ceiling. What they are is noted along with the planning and for
each plan.

## Main definitions

* `Arranger.Operation`, `Operation.Defined` — the operations and when they are defined.
* `Arranger.Stage.planOperations` — what is done while a pattern is planned.
* `Arranger.Plan.operations` — what is done to perform a plan.
* `Arranger.renderOperations` — what is done in a rendering.
-/

namespace Arranger

/-! ## Operations -/

/-- An operation that is not defined for all values. -/
inductive Operation where
  /-- A number of `width` bits shifted by `places`. -/
  | shift (places width : ℕ)
  /-- An amount taken from a total. -/
  | subtract (total amount : ℕ)
  /-- A random choice among `choices` numbers. -/
  | draw (choices : ℕ)
  /-- The members from `start` up to `stop` cut out of a list of `length` members. -/
  | cut (start stop length : ℕ)
  /-- A list divided into chunks of `size` members. -/
  | chunk (size : ℕ)
  /-- A number kept between `low` and `high`. -/
  | clamp {format : Format} (low high : Binary format)
deriving DecidableEq

/-- When an operation is defined. -/
def Operation.Defined : Operation → Prop
  | shift places width => places < width
  | subtract total amount => amount ≤ total
  | draw choices => 0 < choices
  | cut start stop length => start ≤ stop ∧ stop ≤ length
  | chunk size => 0 < size
  | clamp low high => low ≤ high

/-! ## Operations of planning -/

/-- A random reference chooses among its candidates. -/
def BeatRef.operations : BeatRef → List Operation
  | random low high step =>
    match choices? low high step with
    | some choices => [.draw choices]
    | none => []
  | _ => []

/-- For the part of a window that a beat keeps, its length is taken, and for a slice up to the end
the frames of the slice are taken from the end. A silent beat takes the length of the part too. -/
def Beat.cutOperations (beat : Beat) (start stop : ℕ) : List Operation :=
  .subtract stop start ::
    ((match beat.slice with
      | some (.tail fraction) => [.subtract stop (framesOf fraction (stop - start))]
      | _ => []) ++
    if beat.silent then [.subtract (beat.cut start stop).2 (beat.cut start stop).1] else [])

/-- For the frames of a beat its coordinates are kept between zero and the end of the map, and a
part of the frames is kept. -/
def Term.windowOperations (term : Term) (map : Beatmap) (beat : Double) : List Operation :=
  .clamp 0 (Binary.ofNat map.beatCount : Double) ::
    match map.window? beat with
    | some (start, stop) => term.beat.cutOperations start stop
    | none => []

/-- A term resolves its reference, and takes the frames of the beat that is played for it. -/
def Stage.termOperations (stage : Stage) (place : Place) (term : Term) (stream : Stream) :
    List Operation :=
  match stage.songOf term with
  | .error _ => []
  | .ok song =>
    term.beat.ref.operations ++
      match (term.beat.ref.resolve place song.beatmap.beatCount stream).1.bind
        (stage.beatFor song.beatmap place.size) with
      | .ok (some beat) => term.windowOperations song.beatmap beat
      | _ => []

/-- Shuffling `n + 1` members chooses for each but the first among those up to it. -/
def shuffleOperations : ℕ → List Operation
  | 0 => []
  | n + 1 => .draw (n + 2) :: shuffleOperations n

/-- A pattern shuffles its groups and plans its terms. -/
def Stage.planOperations (stage : Stage) (pattern : Pattern) (cursor : Cursor) : List Operation :=
  (pattern.groups.flatMap fun group => shuffleOperations (group.slots.length - 1)) ++
    stage.planNotes stage.termOperations pattern cursor

/-! ## Operations of performing -/

/-- A stretch of a recording, as far as the recording goes, is cut out of each channel. -/
def Recording.windowOperations (recording : Recording) (start stop : ℕ) : List Operation :=
  let stop := min stop recording.frames
  let start := min start stop
  recording.channels.map fun channel => .cut start stop channel.length

/-- Samples are held over chunks, and a bit depth is one more than what a one is shifted by. -/
def Effect.operations : Effect → List Operation
  | downsample hold => [.chunk hold]
  | bitcrush depth => [.subtract depth 1, .shift (depth - 1) 32]
  | _ => []

/-- An extract cuts out a stretch and applies effects. -/
def Leaf.operations : Leaf → List Operation
  | extract _ recording start stop effects =>
    recording.windowOperations start stop ++ effects.flatMap Effect.operations
  | silence _ => []

/-- A limiter keeps samples between the ceiling with a minus sign and the ceiling. -/
def Limiter.operations (limiter : Limiter) : List Operation :=
  [.clamp (-limiter.ceiling) limiter.ceiling]

/-- A plan performs its leaves. A mix is limited. -/
def Plan.operations (limiter : Limiter) : Plan → List Operation
  | single leaf => leaf.operations
  | mix _ leaves => leaves.flatMap Leaf.operations ++ limiter.operations

/-- A rendering checks the aliases, plans the pattern, performs the plans, and limits the result. -/
def renderOperations (pattern : Pattern) (song : Song) (table : SongTable) (options : RenderOptions)
    (entropy : UInt64) : List Operation :=
  match checkAliases table pattern.aliases with
  | .error _ => []
  | .ok _ =>
    let stage : Stage := ⟨song, table, options.repetition⟩
    let cursor := Cursor.ofSeed (options.seed.getD entropy)
    let limiter := Limiter.ofCeiling options.ceiling
    stage.planOperations pattern cursor ++
      match (stage.plan pattern cursor).1 with
      | .error _ => []
      | .ok plans => plans.flatMap (Plan.operations limiter) ++ limiter.operations

end Arranger
