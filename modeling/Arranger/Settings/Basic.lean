import Arranger.Render.Basic

/-!
# Settings

The settings of a user for all renderings.

## Main definitions

* `Arranger.Settings` — the settings.
* `Arranger.Settings.prepare` — the song that patterns play on.
* `Arranger.Settings.options` — the options that patterns render with.
-/

namespace Arranger

/-- The settings of a user. -/
structure Settings where
  /-- The seed of the random choices. -/
  seed : Option UInt64
  /-- How often a pattern plays. -/
  repetition : Repeat
  /-- The largest magnitude of the samples. -/
  ceiling : Sample
  /-- The factor by which beatmaps are scaled. -/
  scale : Double
  /-- By how many beats they are shifted, after they are scaled. -/
  shift : Double
deriving DecidableEq

namespace Settings

/-- The settings that change nothing. -/
def neutral : Settings :=
  ⟨none, .once, 1, 1, 0⟩

/-- The options that patterns render with. -/
def options (settings : Settings) : RenderOptions :=
  ⟨settings.seed, settings.repetition, settings.ceiling⟩

/-- The song that patterns play on. A scale of one and a shift of zero leave it as it is. -/
def prepare (settings : Settings) (song : Song) : Song :=
  let song := if settings.scale.numEq 1 then song else song.scaled settings.scale
  if settings.shift.numEq 0 then song else song.shifted settings.shift

end Settings

end Arranger
