import Arranger.Yaml.Document
import Arranger.Yaml.Scalar

/-!
# YAML values

What nodes mean: null, truth values, numbers, texts, sequences and mappings. The keys of a mapping
are distinct.

## Main definitions

* `Arranger.Yaml.Value` — the values.
* `Arranger.Yaml.Value.ofDocument?` — the value of the root of a document.

## Implementation notes

Values are nested at most `maxDepth` deep, and the functions below recurse on the depth that is left.
A node that a reference stands for is read again each time. How often that may happen in a document
is limited by `maxReuse` for each of its marks.
-/

namespace Arranger.Yaml

/-- The largest depth of nested values. -/
def maxDepth : Nat := 128

/-- How many references may be followed for each mark of the document. -/
def maxReuse : Nat := 100

/-- A value. -/
inductive Value where
  /-- Nothing. -/
  | null
  /-- A truth value. -/
  | truth (value : Bool)
  /-- An integer. -/
  | integer (value : Int)
  /-- A floating-point number. -/
  | float (value : Double)
  /-- A text. -/
  | text (value : String)
  /-- Values in order. -/
  | sequence (items : List Value)
  /-- Pairs of values in order. -/
  | mapping (entries : List (Value × Value))
  /-- A value with a tag. -/
  | tagged (tag : String) (value : Value)

namespace Value

/-! ## Equality of keys -/

/-- Whether two values that are nested at most so deep are the same key. Zero has one sign,
not-a-number is the same as itself, and the order of the entries of a mapping does not matter. -/
def sameKey : Nat → Value → Value → Bool
  | _, null, null => true
  | _, truth a, truth b => a == b
  | _, integer a, integer b => a == b
  | _, float a, float b => a == b || a.numEq b
  | _, text a, text b => a == b
  | depth + 1, sequence a, sequence b =>
    a.length == b.length && (a.zip b).all fun (x, y) => sameKey depth x y
  | depth + 1, mapping a, mapping b =>
    a.length == b.length &&
      a.all fun x => b.any fun y => sameKey depth x.1 y.1 && sameKey depth x.2 y.2
  | depth + 1, tagged s a, tagged t b => s == t && sameKey depth a b
  | _, _, _ => false

/-- Whether the keys of entries are distinct. -/
def distinctKeys : List (Value × Value) → Bool
  | [] => true
  | entry :: entries =>
    entries.all (fun other => !sameKey (2 * maxDepth) entry.1 other.1) && distinctKeys entries

/-! ## Scalars -/

/-- The value of an integer. Up to 128 bits, what does not fit in 64 bits is refused; still larger
ones are no integers. -/
def ofInteger? (n : Int) : Option (Option Value) :=
  if -9223372036854775808 ≤ n ∧ n < 18446744073709551616 then some (some (integer n))
  else if -170141183460469231731687303715884105728 ≤ n
      ∧ n < 340282366920938463463374607431768211456 then none
  else some none

/-- The value of a plain scalar without a tag. -/
def ofPlain? (source : String) : Option Value := do
  if source.isEmpty || isNullWord source then return null
  if let some value := truth? source then return truth value
  let chars := source.toList
  if let some n := integer? chars then
    if let some value := ← ofInteger? n then return value
  let unsigned := match chars with
    | '-' :: rest | '+' :: rest => rest
    | rest => rest
  if hasLeadingZero unsigned then return text source
  if let some x := float? source then return float x
  return text source

/-- The value of a scalar with a tag, which for some tags must be of the type that it names. Other
scalars with a tag are texts. -/
def ofTagged? (tag : Tag) (source : String) : Option Value :=
  if tag == Tag.core "bool" then (truth? source).map truth
  else if tag == Tag.core "int" then (integer? source.toList).bind fun n => (ofInteger? n).join
  else if tag == Tag.core "float" then (float? source).map float
  else if tag == Tag.core "null" then if isNullWord source then some null else none
  else some (text source)

/-! ## Nodes -/

/-- The name without an exclamation mark before it. -/
def bareName (name : String) : String :=
  match name.toList with
  | '!' :: c :: rest => String.ofList (c :: rest)
  | _ => name

/-- The value under the tag of the document's own, if there is one. -/
def underTag (tag : Option Tag) (value : Value) : Value :=
  match tag.bind Tag.localName? with
  | some name => tagged (bareName name) value
  | none => value

/-- The value of a scalar. -/
def ofScalar? (tag : Option Tag) (style : ScalarStyle) (source : String) : Option Value :=
  match tag with
  | some tag =>
    if tag.isLocal then do
      return underTag tag (← if style = .plain then ofPlain? source else some (text source))
    else ofTagged? tag source
  | none => if style = .plain then ofPlain? source else some (text source)

/-- The node without its anchor, or the node that it refers to. The state is how many references may
still be followed. -/
def follow (document : Document) (node : Node) : StateT Nat Option Node := do
  if let .reference _ := node then
    match ← get with
    | 0 => failure
    | left + 1 => set left
  liftM (document.resolve? node)

/-- The value of a node that may be nested so deep. -/
def ofNode (document : Document) : Nat → Node → StateT Nat Option Value
  | depth, node => do
    match ← follow document node, depth with
    | .scalar tag style source, _ => liftM (ofScalar? tag style source)
    | .sequence tag items, depth + 1 =>
      return underTag tag (sequence (← items.mapM (ofNode document depth)))
    | .mapping tag entries, depth + 1 =>
      let entries ← entries.mapM fun (key, value) => do
        return (← ofNode document depth key, ← ofNode document depth value)
      if distinctKeys entries then return underTag tag (mapping entries) else failure
    | _, _ => failure

/-- The value of the root of a document. -/
def ofDocument? (document : Document) : Option Value := do
  let (value, _) ←
    (ofNode document maxDepth document.root).run (maxReuse * document.root.size)
  return value

/-! ## Reading values -/

/-- The value without its tags. -/
def untagged : Value → Value
  | tagged _ value => value.untagged
  | value => value

/-- The text, if the value is one. -/
def text? (value : Value) : Option String :=
  match value.untagged with
  | text s => some s
  | _ => none

/-- The number, if the value is one. -/
def number? (value : Value) : Option Double :=
  match value.untagged with
  | integer n => some (Binary.ofInt n)
  | float x => some x
  | _ => none

/-- The entries, if the value is a mapping whose keys are texts. -/
def fields? (value : Value) : Option (List (String × Value)) :=
  match value.untagged with
  | mapping entries => entries.mapM fun (key, value) => do return (← key.text?, value)
  | _ => none

/-- The name of a choice that carries nothing: a text, or a tag on nothing. -/
def choice? (value : Value) : Option String :=
  match value with
  | text name => some name
  | tagged name null => some name
  | _ => none

end Value

end Arranger.Yaml
