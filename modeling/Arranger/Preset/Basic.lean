import Arranger.Beatmap.Transform
import Arranger.Pattern.Compiling
import Arranger.Render.Basic

/-!
# Presets

A preset is a pattern together with the beatmap that it is meant for: how the beats of a song are to
be scaled and shifted before the pattern plays.

## Main definitions

* `Arranger.Preset` — a pattern with its settings.
* `Arranger.Preset.prepare` — the beatmap that a preset plays on.
* `Arranger.Preset.options` — the options that a preset renders with.
-/

namespace Arranger

/-- How a preset gives its scale. -/
inductive ScaleSetting where
  /-- One number. -/
  | single (factor : Double)
  /-- Several numbers, of which the first counts. -/
  | list (factors : List Double)
deriving DecidableEq

/-- The factor that a setting stands for. -/
def ScaleSetting.factor : ScaleSetting → Double
  | single factor => factor
  | list factors => factors.headD 1

/-- A pattern with its settings. -/
structure Preset where
  /-- The text of the pattern. -/
  pattern : String
  /-- How the beats are scaled. -/
  scale : Option ScaleSetting
  /-- By how many beats they are shifted, after they are scaled. -/
  shift : Option Double
  /-- How often the pattern plays, where the preset says so. -/
  repetition : Option Repeat
  /-- A description for the reader. -/
  description : Option String
deriving DecidableEq

namespace Preset

/-- The preset of a pattern, without settings. -/
def ofPattern (pattern : String) : Preset :=
  ⟨pattern, none, none, none, none⟩

/-- The beatmap that the preset plays on. -/
def prepare (preset : Preset) (map : Beatmap) : Beatmap :=
  let scaled := match preset.scale with
    | some scale => map.scale scale.factor
    | none => map
  match preset.shift with
  | some amount => scaled.shift amount
  | none => scaled

/-- The pattern. -/
def compile (preset : Preset) : Except PatternError Pattern :=
  Pattern.ofText preset.pattern

/-- The options with the preset's own choice of repetition. -/
def options (preset : Preset) (base : RenderOptions) : RenderOptions :=
  { base with repetition := preset.repetition.getD base.repetition }

end Preset

end Arranger
