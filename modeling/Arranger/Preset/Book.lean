import Arranger.Preset.Basic

/-!
# Books of presets

A book holds presets by name, in the order in which the names came in.

## Main definitions

* `Arranger.PresetBook` — the presets by name.
* `Arranger.PresetBook.insert`, `get?`, `merge` — the operations.
* `Arranger.PresetBook.builtin` — the presets that are always there.
-/

namespace Arranger

/-- Presets by name. -/
structure PresetBook where
  /-- The presets with their names. -/
  entries : List (String × Preset)
deriving DecidableEq

/-- The entries with a preset under a name: in the place of the entry of that name, or at the end. -/
def insertEntry (name : String) (preset : Preset) :
    List (String × Preset) → List (String × Preset)
  | [] => [(name, preset)]
  | entry :: entries =>
    if entry.1 = name then (name, preset) :: entries
    else entry :: insertEntry name preset entries

namespace PresetBook

/-- The book without presets. -/
def empty : PresetBook := ⟨[]⟩

/-- The book with a preset under a name. A preset that had the name gives way to it. -/
def insert (book : PresetBook) (name : String) (preset : Preset) : PresetBook :=
  ⟨insertEntry name preset book.entries⟩

/-- The preset of a name. -/
def get? (book : PresetBook) (name : String) : Option Preset :=
  book.entries.lookup name

/-- The names in order. -/
def names (book : PresetBook) : List String :=
  book.entries.map Prod.fst

/-- The number of presets. -/
def size (book : PresetBook) : Nat :=
  book.entries.length

/-- Whether there is no preset. -/
def isEmpty (book : PresetBook) : Bool :=
  book.entries.isEmpty

/-- The book with all the presets of another, which win where both have a name. -/
def merge (book other : PresetBook) : PresetBook :=
  other.entries.foldl (fun book entry => book.insert entry.1 entry.2) book

/-- A preset that fills a song. -/
def filling (pattern description : String) : Preset :=
  { Preset.ofPattern pattern with repetition := some .fill, description := some description }

/-- The presets that are always there. Each fills a song. -/
def builtin : PresetBook :=
  ⟨[("reverse", filling "1r" "every beat played backwards"),
    ("half", { filling "1" "half-time feel from doubled beat length" with
      scale := some (.single (1 / 2)) }),
    ("shuffle", filling "1#a,2#a,3#a,4#a" "beats of each bar in random order"),
    ("stutter", filling "1>0.5,1>0.5,2" "first half of a beat twice"),
    ("swap", filling "2,1" "every second beat swapped with the first")]⟩

end PresetBook

end Arranger
