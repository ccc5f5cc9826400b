import Arranger.Number.Encoding
import Arranger.Pattern.Printing
import Arranger.Settings.Reading
import Arranger.Preset.Reading
import Arranger.Proofs.Number.Nearest
import Arranger.Proofs.Number.Arithmetic
import Arranger.Proofs.Audio.WellFormed
import Arranger.Proofs.Beatmap.WellFormed
import Arranger.Proofs.Song.Reachable
import Arranger.Proofs.Fallible
import Arranger.Proofs.Pattern.Grammar
import Arranger.Proofs.Pattern.Suffixes
import Arranger.Proofs.Number.Order
import Arranger.Proofs.Pattern.Terms
import Arranger.Proofs.Pattern.Steps
import Arranger.Proofs.Pattern.Derivation
import Arranger.Proofs.Number.Decimal
import Arranger.Proofs.Pattern.Numerals
import Arranger.Proofs.Pattern.Scanning
import Arranger.Proofs.Number.Integral
import Arranger.Proofs.Effect.Writing
import Arranger.Proofs.Pattern.Words
import Arranger.Proofs.Pattern.Writable
import Arranger.Proofs.Pattern.Writing
import Arranger.Proofs.Pattern.RoundTrip
import Arranger.Proofs.Beatmap.Window
import Arranger.Proofs.Plan.Tiling
import Arranger.Proofs.Plan.WholeBeats
import Arranger.Proofs.Render.Joining
import Arranger.Proofs.Render.Identity
import Arranger.Proofs.Render.Filling
import Arranger.Proofs.Plan.Unrolling
import Arranger.Proofs.Plan.Positions
import Arranger.Proofs.Render.Clipping
import Arranger.Proofs.Plan.Dressing
import Arranger.Proofs.Render.Sources
import Arranger.Proofs.Render.Ceiling
import Arranger.Proofs.Effect.Length
import Arranger.Proofs.Plan.Extent
import Arranger.Proofs.Render.Length
import Arranger.Proofs.Pattern.Bounds
import Arranger.Proofs.Render.Faults
import Arranger.Proofs.Plan.Groups
import Arranger.Proofs.Plan.Succession
import Arranger.Proofs.Render.Defined
import Arranger.Proofs.Pattern.Splitting
import Arranger.Proofs.Plan.SingleTile
import Arranger.Proofs.Plan.Insertion
import Arranger.Proofs.Beatmap.Wrapping
import Arranger.Proofs.Plan.WholeNumbers
import Arranger.Proofs.Plan.Extracts
import Arranger.Proofs.Plan.Accounting
import Arranger.Proofs.Plan.Selection
import Arranger.Proofs.Plan.FiniteBeats
import Arranger.Proofs.Song.Slicing
import Arranger.Proofs.Song.Neutral
import Arranger.Proofs.Song.Upsampling
import Arranger.Proofs.Beatmap.Scaling
import Arranger.Proofs.Beatmap.FullScaling
import Arranger.Proofs.Beatmap.MeanInterval
import Arranger.Proofs.Beatmap.Shifting
import Arranger.Proofs.Beatmap.Places
import Arranger.Proofs.Effect.Rereading
import Arranger.Proofs.Pattern.Alike
import Arranger.Proofs.Pattern.Blanks
import Arranger.Proofs.Pattern.ErrorPlaces
import Arranger.Proofs.Pattern.Shape
import Arranger.Proofs.Pattern.Division
import Arranger.Proofs.Render.Flipping
import Arranger.Proofs.Audio.Decimation
import Arranger.Proofs.Effect.Growth
import Arranger.Proofs.Effect.Channels
import Arranger.Proofs.Effect.Symmetry
import Arranger.Proofs.Audio.Interleaving
import Arranger.Proofs.Beatmap.Seconds
import Arranger.Proofs.Preset.Builtin
