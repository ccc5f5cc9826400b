import Arranger.Song.Basic

/-!
# Tables of songs

The songs that a pattern can name, each under an alias.

## Main definitions

* `Arranger.SongTable` — the songs by alias.
* `Arranger.SongTable.get?`, `insert`, `aliases` — the operations.

## Implementation notes

The entries are sorted by alias, so that tables with the same songs are equal.
-/

namespace Arranger

/-- Songs by alias. -/
structure SongTable where
  /-- The songs with their aliases, in ascending order of the aliases. -/
  entries : List (String × Song)
deriving DecidableEq

/-- The entries with one more, which takes the place of an entry with the same alias. -/
def insertSorted (name : String) (song : Song) : List (String × Song) → List (String × Song)
  | [] => [(name, song)]
  | entry :: entries =>
    if name < entry.1 then (name, song) :: entry :: entries
    else if name = entry.1 then (name, song) :: entries
    else entry :: insertSorted name song entries

namespace SongTable

/-- The table without songs. -/
def empty : SongTable := ⟨[]⟩

/-- The song of an alias. -/
def get? (table : SongTable) (name : String) : Option Song :=
  table.entries.lookup name

/-- Whether there is a song of an alias. -/
def contains (table : SongTable) (name : String) : Bool :=
  (table.get? name).isSome

/-- The table with a song under an alias, in the place of any other one of that alias. -/
def insert (table : SongTable) (name : String) (song : Song) : SongTable :=
  ⟨insertSorted name song table.entries⟩

/-- The aliases in ascending order. -/
def aliases (table : SongTable) : List String :=
  table.entries.map Prod.fst

/-- The number of songs. -/
def size (table : SongTable) : Nat :=
  table.entries.length

/-- Whether there is no song. -/
def isEmpty (table : SongTable) : Bool :=
  table.entries.isEmpty

end SongTable

end Arranger
