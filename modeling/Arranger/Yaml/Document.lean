import Arranger.Yaml.Layout
import Arranger.Yaml.Node

/-!
# YAML documents

A document is complete before its references are followed. A reference stands for the last node that
was put into its slot, and that node may come after the reference.

## Main definitions

* `Arranger.Yaml.Document` — the root with the nodes that references stand for.
* `Arranger.Yaml.Document.resolve?` — the node that a reference stands for.
* `Arranger.Yaml.Document.entries?` — the entries at the root.
* `Arranger.Yaml.document?` — the only document of a text.
* `Arranger.Yaml.fileText?` — the text of a file.
-/

namespace Arranger.Yaml

/-- A document. -/
structure Document where
  /-- The root. -/
  root : Node
  /-- The nodes with anchors and their slots, the last one first. -/
  anchors : List (Nat × Node)

namespace Document

/-- The document with a root. -/
def ofRoot (root : Node) : Document :=
  ⟨root, root.anchors.reverse⟩

/-- The node without its anchor, or the node that it refers to. -/
def resolve? (document : Document) : Node → Option Node
  | .anchored _ node => some node
  | .reference slot => document.anchors.lookup slot
  | node => some node

/-- The entries at the root: those of a mapping, and none where nothing is written. -/
def entries? (document : Document) : Option (List (Node × Node)) := do
  match ← document.resolve? document.root with
  | .scalar _ .plain "" => return []
  | .mapping _ entries => return entries
  | _ => failure

end Document

/-- The only document of a text. The outer `none` is for a text that is not well formed or has
several documents, the inner one for a text without a document. -/
def document? (text : String) : Option (Option Document) := do
  return (← rootOfTokens? (← tokens? text)).map .ofRoot

/-- The text of a file, which must exist and be encoded in UTF-8. -/
def fileText? (file : Option ByteArray) : Option String :=
  file.bind String.fromUTF8?

end Arranger.Yaml
