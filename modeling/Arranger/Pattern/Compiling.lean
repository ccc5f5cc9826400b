import Arranger.Pattern.Reading
import Arranger.Pattern.Scanning

/-!
# From text to patterns

## Main definitions

* `Arranger.Pattern.ofText` — the pattern that a text spells.
-/

namespace Arranger

/-- The pattern that a text spells. -/
def Pattern.ofText (text : String) : Except PatternError Pattern := do
  Pattern.ofTokens (← scan text)

end Arranger
