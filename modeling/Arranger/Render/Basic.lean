import Arranger.Plan.Planning
import Arranger.Render.Performing

/-!
# Rendering

A pattern becomes a recording: it is planned, each plan is performed, and what they give is
joined and limited.

## Main definitions

* `Arranger.RenderOptions` — the choices of a rendering.
* `Arranger.render` — the recording of a pattern.
-/

namespace Arranger

/-- The choices of a rendering. -/
structure RenderOptions where
  /-- The seed of the random choices; without one, a seed is drawn. -/
  seed : Option UInt64
  /-- How often the pattern plays. -/
  repetition : Repeat
  /-- The largest magnitude of the samples. -/
  ceiling : Sample
deriving DecidableEq

/-- A fault unless the table has all the aliases; it names the first that is missing. -/
def checkAliases (table : SongTable) : List String → Except Fault Unit
  | [] => .ok ()
  | name :: aliases => do
    let _ ← table.resolve name
    checkAliases table aliases

/-- The segments of plans, one after another. -/
def performAll (limiter : Limiter) (channelCount : Nat) (plans : List Plan) : Segment :=
  plans.foldl (fun output plan => output.append (plan.perform limiter channelCount))
    (Segment.silent channelCount 0)

/-- The recording of plans made for a song. -/
def perform (song : Song) (limiter : Limiter) (plans : List Plan) : Recording :=
  .ofSegment (limiter.clampSegment (performAll limiter song.recording.channelCount plans))
    song.recording.rate

/-- The recording of a pattern on a song. If the options have no seed, `entropy` is the seed. -/
def render (pattern : Pattern) (song : Song) (table : SongTable) (options : RenderOptions)
    (entropy : UInt64) : Except Fault Recording := do
  checkAliases table pattern.aliases
  let stage : Stage := ⟨song, table, options.repetition⟩
  let plans ← (stage.plan pattern (.ofSeed (options.seed.getD entropy))).1
  return perform song (.ofCeiling options.ceiling) plans

end Arranger
