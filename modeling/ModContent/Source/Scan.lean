import ModContent.Diagnostic
import ModContent.Grammar.Header
import ModContent.Reference
import ModContent.Source.Normalized

/-!
# Scanning a normalized source

The scanner takes a normalized source one character at a time. It holds the open blocks, the text
since the last delimiter, and the content of the package so far. An opening brace makes a header of
the text and enters that block; a semicolon makes a statement of it; a closing brace does the same
and leaves the innermost block. A failure keeps what was done before it, so a step that fails gives
the content reached beside the failure.
-/

namespace ModContent

/-! ### The content of a package -/

/-- The content that the files of one package build together. -/
structure Content where
  tree : ContentTree
  /-- The references that wait for the end of the package. -/
  queue : List Reference
  /-- The slots declared in this package. Overriding a slot of an earlier package is no
  redeclaration. -/
  declared : List (NodeId × Nat)
  diagnostics : List Diagnostic
  deriving DecidableEq, Repr

/-- What is there when a package begins: a tree, and the findings of earlier packages. -/
def Content.start (tree : ContentTree) (diagnostics : List Diagnostic) : Content :=
  ⟨tree, [], [], diagnostics⟩

namespace Content

/-- The warning for a property that is declared twice in a node within one package. -/
def redeclared (key : Key) (owner : String) (location : Location) : Diagnostic :=
  { severity := .warning
    code := "moddef::parse::redeclared"
    message :=
      s!"'{key.text}' is declared more than once in '{owner}'; the last declaration wins"
    location := some location
    help := none }

/-- The property that a statement declares, before any reference is resolved. -/
def declaredProperty (s : Statement) : Property :=
  match s.value with
  | .values values => Property.of s.key values
  | .reference _ => Property.pending s.key

/-- Declares a property in a node. A property with the same key is replaced, and a reference that
waited in its slot is dropped; if it was declared in this package, that is worth a warning. -/
def declare (content : Content) (id : NodeId) (s : Statement) (location : Location) : Content :=
  match content.tree.node? id with
  | none => content
  | some node =>
    let place := (id, node.slotFor s.key)
    let replaces := (node.replaced? s.key).isSome
    let kept := if replaces then Reference.cancel content.queue place else content.queue
    { tree := content.tree.modify id fun node ↦ node.insert (declaredProperty s)
      queue :=
        match s.value with
        | .values _ => kept
        | .reference path => kept ++ [⟨id, place.2, path, location⟩]
      declared := if place ∈ content.declared then content.declared else place :: content.declared
      diagnostics :=
        if replaces && place ∈ content.declared then
          content.diagnostics ++ [redeclared s.key node.key.text location]
        else content.diagnostics }

end Content

/-! ### Counts -/

/-- Counts of one scan or of several. -/
structure ScanStats where
  /-- Blocks opened, each time they are. -/
  blocks : Nat
  /-- Statements and header parameters. -/
  properties : Nat
  references : Nat
  /-- The deepest nesting; top-level blocks have depth one. -/
  maxDepth : Nat
  deriving DecidableEq, Repr

namespace ScanStats

/-- The counts before anything is scanned. -/
def zero : ScanStats := ⟨0, 0, 0, 0⟩

/-- The counts of two scans together. Depths do not add up. -/
def merge (a b : ScanStats) : ScanStats :=
  ⟨a.blocks + b.blocks, a.properties + b.properties, a.references + b.references,
    max a.maxDepth b.maxDepth⟩

/-- Counts one declaration. -/
def addDeclaration (stats : ScanStats) (s : Statement) : ScanStats :=
  match s.value with
  | .values _ => { stats with properties := stats.properties + 1 }
  | .reference _ =>
    { stats with properties := stats.properties + 1, references := stats.references + 1 }

/-- Counts a block opened at some depth. -/
def addBlock (stats : ScanStats) (depth : Nat) : ScanStats :=
  { stats with blocks := stats.blocks + 1, maxDepth := max stats.maxDepth depth }

end ScanStats

/-! ### Failures -/

/-- Why a text is refused. -/
inductive ScanFault where
  | grammar (fault : GrammarFault)
  | unmatchedClose
  /-- The innermost open block, and how many are open. -/
  | neverClosed (block : String) (depth : Nat)
  deriving DecidableEq, Repr

namespace ScanFault

/-- What a fault says, with its help. -/
def note : ScanFault → Note
  | grammar fault => fault.note
  | unmatchedClose => ⟨"unmatched '\x7d'", some "Remove it, or open a block before it"⟩
  | neverClosed block depth =>
    ⟨s!"block '{block}' is never closed ({depth} open at end of file)",
      some "Add the missing '\x7d'"⟩

end ScanFault

/-- A fault, and the offset of the text it lies in. -/
structure ScanFailure where
  offset : Nat
  fault : ScanFault
  deriving DecidableEq, Repr

/-- The failure as an error in a file. -/
def ScanFailure.toError (failure : ScanFailure) (source : NormalizedSource) (file : String) :
    ContentError :=
  .parse (source.locate file failure.offset) failure.fault.note

/-! ### The scanner -/

/-- A block that is open, and the offset at which its header starts. -/
structure OpenBlock where
  node : NodeId
  start : Nat
  deriving DecidableEq, Repr

/-- The state between two characters. -/
structure Scan where
  content : Content
  /-- The open blocks, the innermost first. -/
  blocks : List OpenBlock
  /-- The text since the last delimiter, backwards. -/
  pending : List Char
  /-- The offset at which the last non-empty text began. -/
  pendingStart : Nat
  /-- The offset of the next character. -/
  offset : Nat
  stats : ScanStats
  deriving DecidableEq, Repr

namespace Scan

/-- The scan of a text that begins with a content. -/
def start (content : Content) : Scan := ⟨content, [], [], 0, 0, ScanStats.zero⟩

/-- The result of a step: the next state, or a failure with the content reached. -/
abbrev Step := Except (ScanFailure × Content) Scan

/-- The text read since the last delimiter. -/
def text (s : Scan) : List Char := s.pending.reverse

/-- The node that statements go to. -/
def scope (s : Scan) : NodeId := (s.blocks.head?.map OpenBlock.node).getD ContentTree.root

/-- Refuses the text at an offset. What was declared before it stays. -/
def fail (s : Scan) (offset : Nat) (fault : ScanFault) : Step :=
  .error (⟨offset, fault⟩, s.content)

/-- Declares a property and counts it. -/
def declare (locate : Nat → Location) (id : NodeId) (s : Scan) (statement : Statement) : Scan :=
  { s with
    content := s.content.declare id statement (locate s.pendingStart)
    stats := s.stats.addDeclaration statement }

/-- Makes a statement of the pending text, if there is any. -/
def flush (locate : Nat → Location) (s : Scan) : Step :=
  if s.pending.isEmpty then .ok s
  else
    match Statement.read s.text none with
    | .error fault => s.fail s.pendingStart (.grammar fault)
    | .ok statement => .ok { s.declare locate s.scope statement with pending := [] }

/-- Makes a header of the pending text and enters its block, which is found or made below the
innermost open one. -/
def openBlock (locate : Nat → Location) (s : Scan) : Step :=
  match Header.read s.text with
  | .error fault => s.fail s.pendingStart (.grammar fault)
  | .ok header =>
    let (id, tree) := s.content.tree.childOrCreate s.scope header.key
    let entered := { s with content := { s.content with tree } }
    let declared := header.parameters.foldl (Scan.declare locate id) entered
    let blocks := ⟨id, s.pendingStart⟩ :: s.blocks
    .ok { declared with
      blocks
      pending := []
      stats := declared.stats.addBlock blocks.length }

/-- Leaves the innermost block, once the pending text is a statement of it. -/
def closeBlock (locate : Nat → Location) (s : Scan) : Step := do
  let s ← s.flush locate
  match s.blocks with
  | [] => s.fail s.offset .unmatchedClose
  | _ :: blocks => .ok { s with blocks }

/-- Adds a character to the pending text. -/
def keep (s : Scan) (c : Char) : Scan :=
  { s with
    pendingStart := if s.pending.isEmpty then s.offset else s.pendingStart
    pending := c :: s.pending }

/-- One character. The offset is that of the character while it is handled. -/
def step (locate : Nat → Location) (s : Scan) (c : Char) : Step := do
  let s ←
    if c = '{' then s.openBlock locate
    else if c = '}' then s.closeBlock locate
    else if c = ';' then s.flush locate
    else .ok (s.keep c)
  return { s with offset := s.offset + c.utf8Size }

/-- The end of the text: a last statement may lack its semicolon, but no block may be open. -/
def finish (locate : Nat → Location) (s : Scan) : Step := do
  let s ← s.flush locate
  match s.blocks with
  | [] => .ok s
  | innermost :: _ =>
    s.fail innermost.start
      (.neverClosed (s.content.tree.keyText innermost.node) s.blocks.length)

/-- The scan of a text to its end. -/
def run (locate : Nat → Location) (s : Scan) (text : List Char) : Step := do
  (← text.foldlM (step locate) s).finish locate

end Scan

/-- Scans one file into the content of its package: the content reached, and the counts or the
failure. -/
def scanFile (content : Content) (file : String) (source : NormalizedSource) :
    Content × Except ContentError ScanStats :=
  match (Scan.start content).run (source.locate file) source.text with
  | .ok s => (s.content, .ok s.stats)
  | .error (failure, reached) => (reached, .error (failure.toError source file))

end ModContent
