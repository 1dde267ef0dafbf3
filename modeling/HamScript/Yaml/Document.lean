/-
# Reading a document

`Document.read` reads the first document of a text.  Nodes stand in blocks, where the indentation
says what belongs together, or in brackets, where it does not matter.  A node may bear an anchor,
which is a name for it, and a tag, which says what it means.

Of what follows the document only the next token is looked at.

The readers are given a bound on the number of nested and following nodes; a text has fewer tokens
than the bound that `Document.read` gives.
-/
import HamScript.Yaml.Node
import HamScript.Yaml.Stream

namespace HamScript.Yaml

/-! ## What has been read so far -/

/-- The tokens to be read, the short names for tags, and the nodes that have names, the last one
first. -/
structure Reader where
  stream : Stream
  handles : List (String × String)
  anchors : List (String × Node)

/-- Steps of reading; a step fails on malformed text. -/
abbrev Reading := StateT Reader Option

namespace Reading

/-- The next token. -/
def peek : Reading Token := do
  let r ← get
  let (token, stream) ← r.stream.peek?
  set { r with stream := stream }
  return token

/-- Takes the token that has been looked at. -/
def drop : Reading Unit :=
  modify fun r => { r with stream := r.stream.drop }

/-- Takes the token that has been looked at, and looks at the next one. -/
def next : Reading Token := do
  drop
  peek

/-- The node that a name stands for. -/
def named (name : String) : Reading Node := do
  (← get).anchors.lookup name

/-- Gives a node a name. -/
def addAnchor (name : String) (n : Node) : Reading Unit :=
  modify fun r => { r with anchors := (name, n) :: r.anchors }

/-- Replaces the node that was given a name when `count` names were there. -/
def setAnchor (count : Nat) (name : String) (n : Node) : Reading Unit :=
  modify fun r =>
    let later := r.anchors.length - count - 1
    { r with anchors := r.anchors.take later ++ (name, n) :: r.anchors.drop (later + 1) }

/-- The full tag of a handle and a suffix. -/
def fullTag (handle suffix : String) : Reading String := do
  if handle = "" then return suffix
  else return (← (← get).handles.lookup handle) ++ suffix

/-! ## Anchors and tags -/

/-- What stands before a node. -/
structure Properties where
  anchor : Option String
  tag : Option String
  deriving Repr

/-- Reads the anchor and the tag before a node, in either order. -/
def properties : Reading Properties := do
  match (← peek).kind with
  | .anchor name =>
    match (← next).kind with
    | .tag handle suffix => drop; return ⟨some name, some (← fullTag handle suffix)⟩
    | _ => return ⟨some name, none⟩
  | .tag handle suffix =>
    match (← next).kind with
    | .anchor name => drop; return ⟨some name, some (← fullTag handle suffix)⟩
    | _ => return ⟨none, some (← fullTag handle suffix)⟩
  | _ => return ⟨none, none⟩

/-- A scalar with its properties. -/
def scalar (line : Nat) (text : String) (plain : Bool) (p : Properties) : Reading Node := do
  let label := p.tag.elim (if plain then Label.plain else .quoted) .tagged
  let n := Node.scalar line text label
  p.anchor.forM (addAnchor · n)
  return n

/-- The node where nothing is written but properties, of which there has to be one. -/
def bare (line : Nat) (p : Properties) : Reading Node :=
  if p.anchor.isSome || p.tag.isSome then scalar line "" true p else failure

/-- A sequence or a mapping.  Within it its name stands for what is not finished yet. -/
def collection (line : Nat) (tag : Tag) (p : Properties) (content : Reading Node) :
    Reading Node := do
  let count := (← get).anchors.length
  p.anchor.forM (addAnchor · (.enclosing line tag))
  let n ← content
  p.anchor.forM (setAnchor count · n)
  return n

/-! ## Nodes -/

/-- Whether the node of an item is left out before a token.  Items in the column of a key end also
where a key or a value starts. -/
def endsItem (withKeys : Bool) : TokenKind → Bool
  | .item | .blockEnd => true
  | .key | .value => withKeys
  | _ => false

/-- Whether the node of a key or a value in a block is left out before a token. -/
def endsEntry : TokenKind → Bool
  | .key | .value | .blockEnd => true
  | _ => false

/-- The comma between two entries in brackets; there is none before the first. -/
def separator (first : Bool) : Reading Token := do
  let t ← peek
  if first then return t
  else if t.kind = .comma then next
  else failure

mutual

/-- A node.  Only in a `block` may it be a block itself; only as a key or a value may it be a
sequence in the column of the mapping. -/
def node : Nat → (block entry : Bool) → Reading Node
  | 0, _, _ => failure
  | n + 1, block, entry => do
    let first ← peek
    match first.kind with
    | .reference name => drop; return .reference first.line (← named name)
    | _ =>
      let line := first.line
      let p ← properties
      match (← peek).kind with
      | .item =>
        if entry then
          collection line .seq p do return .sequence line (← items n true)
        else bare line p
      | .scalar text plain => drop; scalar line text plain p
      | .flowSequenceStart =>
        collection line .seq p do drop; return .sequence line (← flowItems n true)
      | .flowMappingStart =>
        collection line .map p do drop; return .mapping line (← flowEntries n true)
      | .blockSequenceStart =>
        if block then
          collection line .seq p do drop; return .sequence line (← items n false)
        else bare line p
      | .blockMappingStart =>
        if block then
          collection line .map p do drop; return .mapping line (← entries n)
        else bare line p
      | _ => bare line p

/-- The items of a sequence in a block.  In the column of a mapping no token ends the sequence. -/
def items : Nat → (withKeys : Bool) → Reading (List Node)
  | 0, _ => failure
  | n + 1, withKeys => do
    let t ← peek
    match t.kind with
    | .item =>
      let item ←
        if endsItem withKeys (← next).kind then pure (Node.absent t.line) else node n true false
      return item :: (← items n withKeys)
    | .blockEnd =>
      if withKeys then return [] else do drop; return []
    | _ => if withKeys then return [] else failure

/-- The entries of a mapping in a block. -/
def entries : Nat → Reading (List (Node × Node))
  | 0 => failure
  | n + 1 => do
    let t ← peek
    match t.kind with
    | .key =>
      let key ← if endsEntry (← next).kind then pure (Node.absent t.line) else node n true true
      let value ← entryValue n
      return (key, value) :: (← entries n)
    | .blockEnd => drop; return []
    | _ => failure

/-- The value of a key in a block, which may be left out. -/
def entryValue : Nat → Reading Node
  | 0 => failure
  | n + 1 => do
    let t ← peek
    if t.kind = .value then
      if endsEntry (← next).kind then return .absent t.line else node n true true
    else return .absent t.line

/-- The items of a sequence in brackets.  One that is a key with its value is a mapping. -/
def flowItems : Nat → (first : Bool) → Reading (List Node)
  | 0, _ => failure
  | n + 1, first => do
    if (← peek).kind = .flowSequenceEnd then do drop; return []
    else
      let t ← separator first
      match t.kind with
      | .flowSequenceEnd => drop; return []
      | .key =>
        drop
        let key ← flowPairKey n
        let value ← flowValue n .flowSequenceEnd
        return .mapping t.line [(key, value)] :: (← flowItems n false)
      | _ =>
        let item ← node n false false
        return item :: (← flowItems n false)

/-- The key of a pair that is an item in brackets.  What stands where it is left out is taken for
it. -/
def flowPairKey : Nat → Reading Node
  | 0 => failure
  | n + 1 => do
    let t ← peek
    match t.kind with
    | .value | .comma | .flowSequenceEnd => drop; return .absent t.line
    | _ => node n false false

/-- The value of a key in brackets that `close` ends; it may be left out. -/
def flowValue : Nat → (close : TokenKind) → Reading Node
  | 0, _ => failure
  | n + 1, close => do
    let t ← peek
    if t.kind = .value then
      let t ← next
      if t.kind = .comma || t.kind = close then return .absent t.line else node n false false
    else return .absent t.line

/-- The entries of a mapping in braces. -/
def flowEntries : Nat → (first : Bool) → Reading (List (Node × Node))
  | 0, _ => failure
  | n + 1, first => do
    if (← peek).kind = .flowMappingEnd then do drop; return []
    else
      let t ← separator first
      match t.kind with
      | .flowMappingEnd => drop; return []
      | .key =>
        let t ← next
        let key ←
          match t.kind with
          | .value | .comma | .flowMappingEnd => pure (Node.absent t.line)
          | _ => node n false false
        let value ← flowValue n .flowMappingEnd
        return (key, value) :: (← flowEntries n false)
      | _ =>
        let key ← node n false false
        let value := Node.absent (← peek).line
        return (key, value) :: (← flowEntries n false)

end

/-! ## Documents -/

/-- The short names that every document has. -/
def standardHandles : List (String × String) :=
  [("!", "!"), ("!!", Tag.lead)]

/-- Reads the directives of a document, at most one of them on the version and one on each handle.
The first argument bounds their number. -/
def directives : Nat → (versioned : Bool) → Reading Unit
  | 0, _ => failure
  | n + 1, versioned => do
    match (← peek).kind with
    | .version major minor =>
      if versioned || major != 1 || minor != 1 then failure
      else
        drop
        directives n true
    | .shorthand handle lead =>
      let r ← get
      if (r.handles.lookup handle).isSome then failure
      else
        set { r with handles := (handle, lead) :: r.handles }
        drop
        directives n versioned
    | _ => modify fun r => { r with handles := r.handles ++ standardHandles }

/-- Reads the node of a document after the mark that starts it. -/
def content (n : Nat) : Reading Node := do
  let t ← peek
  match t.kind with
  | .version _ _ | .shorthand _ _ | .documentStart | .documentEnd | .streamEnd =>
    return .absent t.line
  | _ => node n true false

/-- Reads a document, unless the text has none. -/
def document (n : Nat) : Reading (Option Node) := do
  match (← peek).kind with
  | .streamEnd => return none
  | .version _ _ | .shorthand _ _ | .documentStart =>
    directives n false
    if (← peek).kind = .documentStart then
      drop
      return some (← content n)
    else failure
  | _ =>
    directives n false
    return some (← node n true false)

end Reading

namespace Document

/-- Reads the first document of a text: `none` if the text is malformed, `some none` if it has no
document. -/
def read (text : String) : Option (Option Node) := do
  let cs := text.toList
  if cs.all isAllowed then
    let cs := unifyBreaks (if cs.head? = some '\uFEFF' then cs.drop 1 else cs)
    let reader : Reader := ⟨Stream.start cs, [], []⟩
    let (document, reader) ← (Reading.document (8 * cs.length + 16)).run reader
    if document.isSome then
      let _ ← Reading.peek.run reader
    some document
  else none

end Document

end HamScript.Yaml
