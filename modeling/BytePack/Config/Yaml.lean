import BytePack.Config.Yaml.Node

/-!
# Settings in YAML

The settings are the entries of the mapping that a text consists of. A text without any node has
none. There is one document, which may have directives and marks around it.
-/

namespace BytePack.Config.Yaml

/-- The handles that directives declare, and the tokens from the start of the document on. There may
be one directive for each handle, and one that asks for version 1.1 or 1.2. -/
def readDirectives (hasVersion : Bool) (handles : List (List Char × List Char)) :
    List Token → Option (List (List Char × List Char) × List Token)
  | .version major minor :: tokens =>
    if hasVersion || major != 1 || (minor != 1 && minor != 2) then none
    else readDirectives true handles tokens
  | .handle name expansion :: tokens =>
    if (handles.lookup name).isSome then none
    else readDirectives hasVersion ((name, expansion) :: handles) tokens
  | .documentStart :: tokens => some (handles, tokens)
  | _ => none

/-- Whether a document that starts with these tokens has no node. -/
def isBare : List Token → Bool
  | [] => true
  | .version .. :: _ => true
  | .handle .. :: _ => true
  | .documentStart :: _ => true
  | .documentEnd :: _ => true
  | _ => false

/-- The node of a document, what is left of its tokens, and the size of it. -/
def readDocument (tokens : List Token) : Option (Node × Reading) := do
  let isDirected := match tokens with
    | .version .. :: _ => true
    | .handle .. :: _ => true
    | .documentStart :: _ => true
    | _ => false
  let (handles, tokens) ← if isDirected then readDirectives false [] tokens else some ([], tokens)
  let reader :=
    if isDirected && isBare tokens then Node.readNothing none
    else Node.read true false (2 * tokens.length + 2)
  reader.run ⟨tokens, handles ++ Tag.standardHandles, [], 0⟩

/-- The deepest nesting of collections. -/
def maxDepth : Nat := 128

/-- How many references may be followed for each scalar, reference or end of a collection. -/
def maxReferences : Nat := 100

/-- The settings of a node. Its tag does not count. -/
def Node.source? (node : Node) : Option Source :=
  match node.content with
  | .mapping entries => some entries
  | .scalar true [] => some []
  | _ => none

/-- The settings of a YAML text. -/
def read (text : String) : Option Source := do
  let cs := text.toList
  if !cs.all isAllowed then none
  else
    match ← Token.ofText? cs with
    | [] => some []
    | tokens =>
      let (node, reading) ← readDocument tokens
      if !reading.tokens.all (· == .documentEnd) then none
      else if maxDepth < node.depth ∨ reading.size * maxReferences < node.references then none
      else node.source?

end BytePack.Config.Yaml
