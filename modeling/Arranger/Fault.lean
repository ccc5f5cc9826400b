import Arranger.Pattern.Error
import Arranger.Song.Basic

/-!
# Faults

Everything that can go wrong between the data of a song and the finished recording.

## Main definitions

* `Arranger.Fault` — what went wrong.
* `Arranger.Fault.code`, `message` — the kind of fault and the fault in words.
* `Arranger.Fault.isRecoverable` — whether another pattern or table would help.
-/

namespace Arranger

/-- What is wrong with a file of presets or settings. -/
inductive FileDefect where
  /-- The presets are no mapping from names. -/
  | notPresets
  /-- A preset has a name that is no text. -/
  | presetName
  /-- The preset of a name has fields that no preset has. -/
  | badPreset (name : String)
  /-- The settings are no settings. -/
  | badSettings
deriving DecidableEq

/-- The defect in words. -/
def FileDefect.message : FileDefect → String
  | notPresets => "presets"
  | presetName => "preset name must be a string"
  | badPreset name => s!"preset '{name}'"
  | badSettings => "settings"

/-- What can go wrong. -/
inductive Fault where
  /-- The data of a beatmap are wrong. -/
  | invalidBeatmap (defect : Beatmap.Defect)
  /-- The data of a recording are wrong. -/
  | invalidAudio (defect : Recording.Defect)
  /-- The text of a pattern is wrong. -/
  | pattern (error : PatternError)
  /-- A pattern names a song that the table lacks. -/
  | unknownAlias (name : String)
  /-- A beat is not on the beatmap and nothing stands for it. -/
  | beatOutOfRange (beat : Double) (beatCount : Nat)
  /-- The text of a file is wrong. -/
  | configuration (defect : FileDefect)
  /-- A file is missing or is no text. -/
  | unreadable
deriving DecidableEq

namespace Fault

/-- The identifier of the kind of fault. -/
def code : Fault → String
  | invalidBeatmap _ => "INVALID_BEATMAP"
  | invalidAudio _ => "INVALID_AUDIO"
  | pattern error => error.code
  | unknownAlias _ => "UNKNOWN_SOURCE_ALIAS"
  | beatOutOfRange _ _ => "RENDER_RANGE"
  | configuration _ => "CONFIG_ERROR"
  | unreadable => "IO_ERROR"

/-- Whether another pattern or another table would help. -/
def isRecoverable : Fault → Bool
  | pattern _ | unknownAlias _ => true
  | _ => false

/-- The fault in words. -/
def message : Fault → String
  | invalidBeatmap defect => s!"invalid beatmap: {defect.message}"
  | invalidAudio defect => s!"invalid audio: {defect.message}"
  | pattern error => s!"pattern error: {error.message}"
  | unknownAlias name => s!"unknown source alias: [{name}]"
  | beatOutOfRange beat beatCount =>
    s!"beat {beat.toText} cannot be resolved against a beatmap of {beatCount} beats"
  | configuration defect => defect.message
  | unreadable => "the file cannot be read"

end Fault

end Arranger
