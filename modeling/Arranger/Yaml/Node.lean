import Arranger.Yaml.Token

/-!
# YAML nodes

The nodes of a document and how tokens spell them.

## Main definitions

* `Arranger.Yaml.Node` — scalars, sequences and mappings with their tags, and references to nodes.
* `Arranger.Yaml.Node.anchors` — the nodes with anchors.
* `Arranger.Yaml.rootOfTokens?` — the root of the only document that tokens spell.

## Implementation notes

An anchor puts its node into a slot, and a reference stands for what is in a slot. The number of the
slot is how many names of anchors the document has had so far. So a name that is given again leaves
its slot for a further one, which it shares with the next new name.

The readers call one another at most three times for each token that they take, which bounds their
fuel.
-/

namespace Arranger.Yaml

/-- A node of a document. -/
inductive Node where
  /-- A text. -/
  | scalar (tag : Option Tag) (style : ScalarStyle) (text : String)
  /-- Nodes in order. -/
  | sequence (tag : Option Tag) (items : List Node)
  /-- Pairs of nodes in order. -/
  | mapping (tag : Option Tag) (entries : List (Node × Node))
  /-- A node with an anchor, which puts it into a slot. -/
  | anchored (slot : Nat) (node : Node)
  /-- A reference to the node in a slot. -/
  | reference (slot : Nat)

namespace Node

/-- The node that stands where nothing is written. -/
def nothing : Node :=
  .scalar none .plain ""

mutual

/-- The nodes with anchors and their slots, in the order in which they start. -/
def anchors : Node → List (Nat × Node)
  | .anchored slot node => (slot, node) :: node.anchors
  | .sequence _ items => anchorsOfItems items
  | .mapping _ entries => anchorsOfEntries entries
  | .scalar _ _ _ | .reference _ => []

/-- The same for the items of a sequence. -/
def anchorsOfItems : List Node → List (Nat × Node)
  | [] => []
  | item :: items => item.anchors ++ anchorsOfItems items

/-- The same for the entries of a mapping. -/
def anchorsOfEntries : List (Node × Node) → List (Nat × Node)
  | [] => []
  | (key, value) :: entries => key.anchors ++ value.anchors ++ anchorsOfEntries entries

end

mutual

/-- The number of marks that the node is made of: one for a scalar or a reference, and the start and
the end of a collection. -/
def size : Node → Nat
  | .anchored _ node => node.size
  | .sequence _ items => sizeOfItems items + 2
  | .mapping _ entries => sizeOfEntries entries + 2
  | .scalar _ _ _ | .reference _ => 1

/-- The same for the items of a sequence. -/
def sizeOfItems : List Node → Nat
  | [] => 0
  | item :: items => item.size + sizeOfItems items

/-- The same for the entries of a mapping. -/
def sizeOfEntries : List (Node × Node) → Nat
  | [] => 0
  | (key, value) :: entries => key.size + value.size + sizeOfEntries entries

end

end Node

/-! ## Reading tokens -/

/-- What the readers pass on. -/
structure NodeReader where
  /-- The tokens that are left. -/
  tokens : List Token
  /-- The names of the anchors so far with the slots of the last ones. -/
  names : List (String × Nat)
  /-- The handles of tags with what they stand for. -/
  handles : List (String × Tag)

/-- A reader, which may fail. -/
abbrev Reading := StateT NodeReader Option

namespace Reading

/-- The next token. -/
def peek : Reading (Option Token) := do
  return (← get).tokens.head?

/-- The step behind the next token. -/
def skip : Reading Unit :=
  modify fun reader => { reader with tokens := reader.tokens.drop 1 }

/-- The result of a reader, unless the next token is one of some kind: then nothing is written. -/
def unlessAt (kind : Option Token → Bool) (read : Reading Node) : Reading Node := do
  if kind (← peek) then return .nothing else read

/-! ## Properties -/

/-- An anchor, if there is one. -/
def anchor? : Reading (Option String) := do
  match ← peek with
  | some (.anchor name) =>
    skip
    return some name
  | _ => return none

/-- A tag with its handle replaced, if there is one. -/
def tag? : Reading (Option Tag) := do
  match ← peek with
  | some (.tag none tag) =>
    skip
    return some tag
  | some (.tag (some handle) rest) =>
    skip
    let start ← liftM ((← get).handles.lookup handle)
    return some (start.append rest)
  | _ => return none

/-- An anchor and a tag in either order, if there are any. -/
def properties : Reading (Option String × Option Tag) := do
  match ← anchor? with
  | some anchor => return (some anchor, ← tag?)
  | none =>
    let tag ← tag?
    return (← anchor?, tag)

/-- The slot of an anchor, whose name is known from now on. -/
def declare (name : String) : Reading Nat := do
  let reader ← get
  let slot := reader.names.length
  set { reader with names := (name, slot) :: reader.names.filter (·.1 != name) }
  return slot

/-- A node under its anchor, if it has one. -/
def anchored (anchor : Option String) (read : Reading Node) : Reading Node := do
  match anchor with
  | none => read
  | some name =>
    let slot ← declare name
    return .anchored slot (← read)

/-- The reference to the last anchor of a name so far. -/
def target (name : String) : Reading Node := do
  return .reference (← liftM ((← get).names.lookup name))

/-! ## Where nothing is written -/

/-- Whether an item of a block sequence is left out. -/
def noBlockItem : Option Token → Bool
  | some .blockEntry | some .blockEnd => true
  | _ => false

/-- Whether an item of a sequence in a mapping is left out. -/
def noIndentlessItem : Option Token → Bool
  | some .blockEntry | some .key | some .value | some .blockEnd => true
  | _ => false

/-- Whether a key or a value of a block mapping is left out. -/
def noBlockPart : Option Token → Bool
  | some .key | some .value | some .blockEnd => true
  | _ => false

/-- Whether the key of a pair in a flow sequence is left out. -/
def noPairKey : Option Token → Bool
  | some .value | some .flowEntry | some .flowSequenceEnd => true
  | _ => false

/-- Whether the value of a pair in a flow sequence is left out. -/
def noPairValue : Option Token → Bool
  | some .flowEntry | some .flowSequenceEnd => true
  | _ => false

/-- Whether the key behind a question mark in a flow mapping is left out. -/
def noFlowKey : Option Token → Bool
  | some .value | some .flowEntry | some .flowMappingEnd => true
  | _ => false

/-- Whether the value in a flow mapping is left out. -/
def noFlowValue : Option Token → Bool
  | some .flowEntry | some .flowMappingEnd => true
  | _ => false

/-- A value behind its mark, or nothing without the mark. -/
def valueAfterMark (left : Option Token → Bool) (read : Reading Node) : Reading Node := do
  match ← peek with
  | some .value =>
    skip
    unlessAt left read
  | _ => return .nothing

/-! ## Nodes -/

mutual

/-- A node. Block collections are read where `block` holds, and sequences without an indentation of
their own where `indentless` holds too. -/
def node : Nat → Bool → Bool → Reading Node
  | 0, _, _ => failure
  | fuel + 1, block, indentless => do
    match ← peek with
    | some (.reference name) =>
      skip
      target name
    | _ =>
      let (anchor, tag) ← properties
      anchored anchor (content fuel block indentless (anchor.isSome || tag.isSome) tag)

/-- A node behind its properties. Only with properties it may be left out. -/
def content : Nat → Bool → Bool → Bool → Option Tag → Reading Node
  | 0, _, _, _, _ => failure
  | fuel + 1, block, indentless, optional, tag => do
    match ← peek, block, indentless with
    | some .blockEntry, _, true => return .sequence tag (← indentlessItems fuel)
    | some (.scalar style text), _, _ =>
      skip
      return .scalar tag style text
    | some .flowSequenceStart, _, _ =>
      skip
      return .sequence tag (← flowItems fuel true)
    | some .flowMappingStart, _, _ =>
      skip
      return .mapping tag (← flowEntries fuel true)
    | some .blockSequenceStart, true, _ =>
      skip
      return .sequence tag (← blockItems fuel)
    | some .blockMappingStart, true, _ =>
      skip
      return .mapping tag (← blockEntries fuel)
    | _, _, _ => if optional then return .scalar tag .plain "" else failure

/-- The items of an indented sequence. -/
def blockItems : Nat → Reading (List Node)
  | 0 => failure
  | fuel + 1 => do
    match ← peek with
    | some .blockEntry =>
      skip
      let item ← unlessAt noBlockItem (node fuel true false)
      return item :: (← blockItems fuel)
    | some .blockEnd =>
      skip
      return []
    | _ => failure

/-- The items of a sequence that is indented like the mapping around it. -/
def indentlessItems : Nat → Reading (List Node)
  | 0 => failure
  | fuel + 1 => do
    match ← peek with
    | some .blockEntry =>
      skip
      let item ← unlessAt noIndentlessItem (node fuel true false)
      return item :: (← indentlessItems fuel)
    | _ => return []

/-- The entries of an indented mapping. -/
def blockEntries : Nat → Reading (List (Node × Node))
  | 0 => failure
  | fuel + 1 => do
    match ← peek with
    | some .key =>
      skip
      let key ← unlessAt noBlockPart (node fuel true true)
      let value ← valueAfterMark noBlockPart (node fuel true true)
      return (key, value) :: (← blockEntries fuel)
    | some .blockEnd =>
      skip
      return []
    | _ => failure

/-- The items of a sequence in brackets. A pair stands for a mapping with one entry. -/
def flowItems : Nat → Bool → Reading (List Node)
  | 0, _ => failure
  | fuel + 1, first => do
    if (← peek) == some .flowSequenceEnd then
      skip
      return []
    if !first then
      if (← peek) != some .flowEntry then failure
      skip
    match ← peek with
    | some .flowSequenceEnd =>
      skip
      return []
    | some .key =>
      skip
      let key ← pairKey fuel
      let value ← valueAfterMark noPairValue (node fuel false false)
      return .mapping none [(key, value)] :: (← flowItems fuel false)
    | _ =>
      let item ← node fuel false false
      return item :: (← flowItems fuel false)

/-- The key of a pair. A key that is left out takes the token in its place. -/
def pairKey : Nat → Reading Node
  | 0 => failure
  | fuel + 1 => do
    if noPairKey (← peek) then
      skip
      return .nothing
    else node fuel false false

/-- The entries of a mapping in braces. -/
def flowEntries : Nat → Bool → Reading (List (Node × Node))
  | 0, _ => failure
  | fuel + 1, first => do
    if (← peek) == some .flowMappingEnd then
      skip
      return []
    if !first then
      if (← peek) != some .flowEntry then failure
      skip
    match ← peek with
    | some .flowMappingEnd =>
      skip
      return []
    | some .key =>
      skip
      let key ← unlessAt noFlowKey (node fuel false false)
      let value ← valueAfterMark noFlowValue (node fuel false false)
      return (key, value) :: (← flowEntries fuel false)
    | _ =>
      let key ← node fuel false false
      return (key, .nothing) :: (← flowEntries fuel false)

end

/-! ## Documents -/

/-- The directives before a document: a version, which must be a known one, and handles. -/
def directives : Nat → Bool → Reading Unit
  | 0, _ => failure
  | fuel + 1, versioned => do
    match ← peek with
    | some (.version major minor) =>
      if versioned || major != 1 || (minor != 1 && minor != 2) then failure
      skip
      directives fuel true
    | some (.tagHandle handle start) =>
      if ((← get).handles.lookup handle).isSome then failure
      skip
      modify fun reader => { reader with handles := reader.handles ++ [(handle, start)] }
      directives fuel versioned
    | _ => return ()

/-- The handles that need no directive. -/
def defaultHandles : List (String × Tag) :=
  [("!", .mark), ("!!", .core "")]

/-- Whether a document ends before it has a node. -/
def noRoot : Option Token → Bool
  | none | some (.version _ _) | some (.tagHandle _ _) | some .documentStart
  | some .documentEnd => true
  | _ => false

/-- Whether a document begins with a mark or a directive. -/
def isMarked : Option Token → Bool
  | some (.version _ _) | some (.tagHandle _ _) | some .documentStart => true
  | _ => false

/-- The default handles beside those of the directives. -/
def addDefaultHandles : Reading Unit :=
  modify fun reader => { reader with handles := reader.handles ++ defaultHandles }

/-- The root of the only document. -/
def root (fuel : Nat) : Reading Node := do
  if isMarked (← peek) then
    directives fuel false
    if (← peek) != some .documentStart then failure
    skip
    addDefaultHandles
    unlessAt noRoot (node fuel true false)
  else
    addDefaultHandles
    node fuel true false

end Reading

/-! ## Documents of tokens -/

/-- The root of the only document that tokens spell; without tokens there is no document. -/
def rootOfTokens? (tokens : List Token) : Option (Option Node) := do
  if tokens.isEmpty then return none
  let fuel := 4 * tokens.length + 4
  let (root, reader) ← (Reading.root fuel).run ⟨tokens, [], []⟩
  if (reader.tokens.dropWhile (· == .documentEnd)).isEmpty then return some root else failure

end Arranger.Yaml
