import BytePack.Config.Yaml.Token
import BytePack.Config.Yaml.Value

/-!
# YAML nodes

The tokens of a document make up one node, with others inside it. A node may have a name, its
anchor, by which later ones refer to it; such a reference is the node itself. What is kept of a node
is its value, how deep it is and how much there is to follow in it.
-/

namespace BytePack.Config.Yaml

/-- What stands in a node, its tag apart. -/
inductive Content where
  | scalar (isPlain : Bool) (text : List Char)
  | sequence
  | mapping (entries : Source)

/-- A node. -/
structure Node where
  /-- The name of its tag. -/
  tag : Option (List Char)
  content : Content
  /-- The number of collections that contain one another in it. -/
  depth : Nat
  /-- The number of references to follow in it. -/
  references : Nat

namespace Node

/-! ## Values -/

/-- The text of a node that is a scalar. -/
def text? (node : Node) : Option String :=
  match node.content with
  | .scalar _ text => some (.ofList text)
  | _ => none

/-- What a node stands for without its tag. -/
def untagged (node : Node) : Setting :=
  match node.content with
  | .scalar isPlain text => setting isPlain text
  | .sequence => .other
  | .mapping entries => .table entries

/-- What a node stands for, if it is what its tag asks for. A tag of the document's own is the name
of an entry that holds the rest. -/
def setting? (node : Node) : Option Setting :=
  match node.tag, node.content with
  | some ('!' :: name), _ => some (.table [(.ofList name, node.untagged)])
  | some tag, .scalar _ text => taggedSetting? tag text
  | _, _ => some node.untagged

/-! ## Making nodes -/

/-- A scalar. A lone exclamation mark before it says nothing. -/
def scalar (tag : Option (List Char)) (isPlain : Bool) (text : List Char) : Node :=
  ⟨if tag = some ['!'] then none else tag, .scalar isPlain text, 0, 0⟩

/-- A scalar that is not there. -/
def empty (tag : Option (List Char)) : Node := ⟨tag, .scalar true [], 0, 0⟩

/-- A collection of nodes. -/
def collection (tag : Option (List Char)) (content : Content) (nodes : List Node) : Node :=
  ⟨tag, content, nodes.foldl (fun depth node => max depth node.depth) 0 + 1,
    nodes.foldl (fun count node => count + node.references) 0⟩

/-- A sequence, if its items have values. -/
def sequence? (tag : Option (List Char)) (items : List Node) : Option Node := do
  let _ ← items.mapM setting?
  some (collection tag .sequence items)

/-- A mapping, if its keys are scalars, all of them different, and its other nodes have values. -/
def mapping? (tag : Option (List Char)) (entries : List (Node × Node)) : Option Node := do
  let source ← entries.mapM fun (key, value) => do some (← key.text?, ← value.setting?)
  if (source.map Prod.fst).Nodup then
    some (collection tag (.mapping source) (entries.flatMap fun (key, value) => [key, value]))
  else none

end Node

/-! ## Reading -/

/-- What is known while the tokens of a document are read. -/
structure Reading where
  /-- The tokens that are left. -/
  tokens : List Token
  /-- What the handles of tags stand for. -/
  handles : List (List Char × List Char)
  /-- The nodes that can be referred to, by their anchors. -/
  anchors : List (List Char × Node)
  /-- The number of scalars, references and ends of collections so far. -/
  size : Nat

/-- What reads some tokens. -/
abbrev NodeReader := StateT Reading Option

namespace Node

/-- The next token. -/
def peek : NodeReader (Option Token) := do return (← get).tokens.head?

/-- Goes over the next token. -/
def skip : NodeReader Unit := modify fun s => { s with tokens := s.tokens.drop 1 }

/-- Goes over the next token if it is the given one, and tells whether it is. -/
def skipIf (token : Token) : NodeReader Bool := do
  if (← peek) = some token then
    skip
    return true
  else return false

/-- Goes over the separator before an item or an entry, which the first one does not have. -/
def readSeparator (isFirst : Bool) : NodeReader Unit := do
  if isFirst then return ()
  else if ← skipIf .separator then return ()
  else failure

/-- Counts what a node adds to the size of the document. -/
def count (node : Node) (size : Nat) : NodeReader Node := do
  modify fun s => { s with size := s.size + size }
  return node

/-- A scalar that is not there. -/
def readNothing (tag : Option (List Char)) : NodeReader Node := count (empty tag) 1

/-- A node, unless the next token is one of those before which it may be left out. -/
def readUnless (ends : List Token) (read : NodeReader Node) : NodeReader Node := do
  if (← peek).any ends.contains then readNothing none else read

/-- The tag that stands before a node. -/
def readTag : NodeReader (Option (List Char)) := do
  match ← peek with
  | some (.tag tag) =>
    skip
    return some (← tag.name? (← get).handles)
  | _ => return none

/-- The anchor that stands before a node. -/
def readAnchor : NodeReader (Option (List Char)) := do
  match ← peek with
  | some (.anchor name) =>
    skip
    return some name
  | _ => return none

/-- The anchor and the tag that stand before a node, in either order. -/
def readProperties : NodeReader (Option (List Char) × Option (List Char)) := do
  match ← readAnchor with
  | some name => return (some name, ← readTag)
  | none =>
    let tag ← readTag
    return (← if tag.isSome then readAnchor else pure none, tag)

/-- The node of an anchor. -/
def readReference (name : List Char) : NodeReader Node := do
  let node ← (← get).anchors.lookup name
  count { node with references := node.references + 1 } 1

/-- Gives a node its anchor while it is read. Until it is complete nothing can refer to it. -/
def withAnchor (anchor : Option (List Char)) (read : NodeReader Node) : NodeReader Node := do
  match anchor with
  | none => read
  | some name =>
    modify fun s => { s with anchors := s.anchors.filter fun entry => entry.1 != name }
    let node ← read
    modify fun s => { s with anchors := (name, node) :: s.anchors }
    return node

mutual

/-- A node. Inside brackets and braces there are no block collections; a block sequence that is a
value of a mapping may be indented no deeper than it. A complete node takes no more than twice as
many calls within one another as it has tokens, so that twice the number of all tokens is enough
`fuel`. -/
def read (inBlock isValue : Bool) : (fuel : Nat) → NodeReader Node
  | 0 => failure
  | fuel + 1 => do
    match ← peek with
    | some (.reference name) =>
      skip
      readReference name
    | _ =>
      let (anchor, tag) ← readProperties
      withAnchor anchor (readContent inBlock isValue (anchor.isSome || tag.isSome) tag fuel)

/-- A node after what stands before it. If there is something before it, it may be left out. -/
def readContent (inBlock isValue mayLack : Bool) (tag : Option (List Char)) :
    (fuel : Nat) → NodeReader Node
  | 0 => failure
  | fuel + 1 => do
    match ← peek, inBlock, isValue with
    | some .item, _, true => count (← sequence? tag (← readBareItems fuel)) 2
    | some (.scalar isPlain text), _, _ =>
      skip
      count (scalar tag isPlain text) 1
    | some .openSequence, _, _ =>
      skip
      count (← sequence? tag (← readFlowItems true fuel)) 2
    | some .openMapping, _, _ =>
      skip
      count (← mapping? tag (← readFlowEntries true fuel)) 2
    | some .blockSequence, true, _ =>
      skip
      count (← sequence? tag (← readItems fuel)) 2
    | some .blockMapping, true, _ =>
      skip
      count (← mapping? tag (← readEntries fuel)) 2
    | _, _, _ => if mayLack then readNothing tag else failure

/-- The items of a block sequence. -/
def readItems : (fuel : Nat) → NodeReader (List Node)
  | 0 => failure
  | fuel + 1 => do
    if ← skipIf .item then
      let node ← readUnless [.item, .blockEnd] (read true false fuel)
      return node :: (← readItems fuel)
    else if ← skipIf .blockEnd then return []
    else failure

/-- The items of a block sequence that is indented no deeper than the mapping around it. -/
def readBareItems : (fuel : Nat) → NodeReader (List Node)
  | 0 => failure
  | fuel + 1 => do
    if ← skipIf .item then
      let node ← readUnless [.item, .key, .value, .blockEnd] (read true false fuel)
      return node :: (← readBareItems fuel)
    else return []

/-- The entries of a block mapping. -/
def readEntries : (fuel : Nat) → NodeReader (List (Node × Node))
  | 0 => failure
  | fuel + 1 => do
    if ← skipIf .key then
      let key ← readUnless [.key, .value, .blockEnd] (read true true fuel)
      let value ←
        if ← skipIf .value then readUnless [.key, .value, .blockEnd] (read true true fuel)
        else readNothing none
      return (key, value) :: (← readEntries fuel)
    else if ← skipIf .blockEnd then return []
    else failure

/-- The items in brackets. An item may be a mapping of one entry. -/
def readFlowItems (isFirst : Bool) : (fuel : Nat) → NodeReader (List Node)
  | 0 => failure
  | fuel + 1 => do
    if ← skipIf .closeSequence then return []
    else
      readSeparator isFirst
      if ← skipIf .closeSequence then return []
      else
        let node ←
          if ← skipIf .key then readPair fuel else read false false fuel
        return node :: (← readFlowItems false fuel)

/-- A mapping of one entry, after the mark of its key. If there is no key, the token in its place
does not count. -/
def readPair : (fuel : Nat) → NodeReader Node
  | 0 => failure
  | fuel + 1 => do
    let key ←
      if (← peek).any [Token.value, .separator, .closeSequence].contains then
        skip
        readNothing none
      else read false false fuel
    let value ←
      if ← skipIf .value then readUnless [.separator, .closeSequence] (read false false fuel)
      else readNothing none
    count (← mapping? none [(key, value)]) 2

/-- The entries in braces. A key may stand without a value. -/
def readFlowEntries (isFirst : Bool) : (fuel : Nat) → NodeReader (List (Node × Node))
  | 0 => failure
  | fuel + 1 => do
    if ← skipIf .closeMapping then return []
    else
      readSeparator isFirst
      if ← skipIf .closeMapping then return []
      else if ← skipIf .key then
        let key ← readUnless [.value, .separator, .closeMapping] (read false false fuel)
        let value ←
          if ← skipIf .value then readUnless [.separator, .closeMapping] (read false false fuel)
          else readNothing none
        return (key, value) :: (← readFlowEntries false fuel)
      else
        let key ← read false false fuel
        let value ← readNothing none
        return (key, value) :: (← readFlowEntries false fuel)

end

end Node

end BytePack.Config.Yaml
