import TruthTable.Markup
import TruthTable.Text.Utf8

/-!
# Diagram — the tree of an expression as a graph

Each node of a tree becomes a node of the graph, under a number of its own.  It carries a label and
whether it is a leaf, and an edge leads from every node to each of its operands, marked with the
side it stands on.

* `Diagram.Library`, `Diagram.Library.Lawful` — what keeps graphs, and its laws.
* `Diagram.ofExpr` — the graph of a tree, added up node by node.
* `Diagram.dot` — the graph in the dot language.
* `Diagram.draw` — drawing the graph to a file, by a program that reads the dot language.
-/

namespace TruthTable

/-- The **side** on which an operand stands. -/
inductive Side where
  | left
  | right
  /-- The only operand of a negation. -/
  | operand
  deriving DecidableEq, Repr

/-- The word for a side. -/
def Side.name : Side → String
  | left => "left"
  | right => "right"
  | operand => "operand"

/-- The label of the outermost node. -/
def Expr.label : Expr → String
  | var n => n
  | const b => if b then "1" else "0"
  | not _ => Operator.not.name
  | bin c _ _ => c.name

namespace Diagram

/-- A **node** of a graph. -/
structure Node where
  number : Nat
  label : String
  leaf : Bool
  deriving DecidableEq, Repr

/-- An **edge** from a node to an operand of it. -/
structure Edge where
  parent : Nat
  child : Nat
  side : Side
  deriving DecidableEq, Repr

end Diagram

/-- **A graph as it is listed**: its nodes, and its edges grouped by the nodes they come from. -/
structure Diagram where
  nodes : List Diagram.Node
  edges : List Diagram.Edge
  deriving DecidableEq, Repr

namespace Diagram

/-! ## Libraries of graphs

Graphs are kept by a library: it adds nodes under their numbers and edges between them, and lists
what was added.  What it does is known by its laws. -/

/-- **A library of graphs**, whose values are the graphs. -/
structure Library (G : Type) where
  /-- The graph that has no nodes yet. -/
  empty : G
  addNode : G → (number : Nat) → (label : String) → (leaf : Bool) → G
  addEdge : G → (parent child : Nat) → Side → G
  /-- The number of nodes. -/
  count : G → Nat
  nodes : G → List Node
  /-- The edges from the node of a number. -/
  outgoing : G → Nat → List Edge
  /-- The edges of all nodes. -/
  edges : G → List Edge

/-- **Puts an entry** in the place of the one with its key, or behind all others. -/
def put {α κ : Type} [DecidableEq κ] (key : α → κ) (x : α) (xs : List α) : List α :=
  if xs.any (key · == key x) then xs.map fun y => if key y = key x then x else y else xs ++ [x]

/-- **The laws of a library**: nodes and edges are listed as they came, the edges grouped by the
nodes that they come from, and what comes under a key that is there takes its place. -/
structure Library.Lawful {G : Type} (lib : Library G) : Prop where
  nodes_empty : lib.nodes lib.empty = []
  outgoing_empty : ∀ n, lib.outgoing lib.empty n = []
  count_eq : ∀ g, lib.count g = (lib.nodes g).length
  nodes_addNode : ∀ g n label leaf,
    lib.nodes (lib.addNode g n label leaf) = put Node.number ⟨n, label, leaf⟩ (lib.nodes g)
  outgoing_addNode : ∀ g n label leaf m,
    lib.outgoing (lib.addNode g n label leaf) m = lib.outgoing g m
  /-- Between nodes that are there an edge brings no node. -/
  nodes_addEdge : ∀ g parent child side, parent ∈ (lib.nodes g).map Node.number →
    child ∈ (lib.nodes g).map Node.number →
      lib.nodes (lib.addEdge g parent child side) = lib.nodes g
  outgoing_addEdge : ∀ g parent child side, parent ∈ (lib.nodes g).map Node.number →
    child ∈ (lib.nodes g).map Node.number → ∀ m,
      lib.outgoing (lib.addEdge g parent child side) m =
        if m = parent then put Edge.child ⟨parent, child, side⟩ (lib.outgoing g m)
        else lib.outgoing g m
  edges_eq : ∀ g, lib.edges g = (lib.nodes g).flatMap fun v => lib.outgoing g v.number

/-! ## Adding up a graph

A tree is added to a graph node by node: a node gets the number of nodes that are there already,
and the edge to an operand comes in when the whole operand has been added. -/

/-- **Adds a tree**, and tells the number of its outermost node. -/
def Library.add {G : Type} (lib : Library G) : G → Expr → Nat × G
  | g, e@(.var _) | g, e@(.const _) =>
    let n := lib.count g
    (n, lib.addNode g n e.label true)
  | g, e@(.not a) =>
    let n := lib.count g
    let (child, g) := lib.add (lib.addNode g n e.label false) a
    (n, lib.addEdge g n child .operand)
  | g, e@(.bin _ l r) =>
    let n := lib.count g
    let (left, g) := lib.add (lib.addNode g n e.label false) l
    let (right, g) := lib.add (lib.addEdge g n left .left) r
    (n, lib.addEdge g n right .right)

/-- **The graph of a tree**, as the library lists it. -/
def ofExpr {G : Type} (lib : Library G) (e : Expr) : Diagram :=
  let g := (lib.add lib.empty e).2
  { nodes := lib.nodes g, edges := lib.edges g }

/-! ## Sketches -/

/-- **A graph in two rows**: its nodes and its edges, each in the order in which they came. -/
structure Sketch where
  nodes : List Node := []
  edges : List Edge := []
  deriving DecidableEq, Repr

namespace Sketch

/-- The edges from the node of a number. -/
def outgoing (s : Sketch) (n : Nat) : List Edge := s.edges.filter (·.parent = n)

/-- The library of sketches. -/
def library : Library Sketch where
  empty := {}
  addNode s number label leaf := { s with nodes := put Node.number ⟨number, label, leaf⟩ s.nodes }
  addEdge s parent child side :=
    { s with edges := put (fun x => (x.parent, x.child)) ⟨parent, child, side⟩ s.edges }
  count s := s.nodes.length
  nodes := nodes
  outgoing := outgoing
  edges s := s.nodes.flatMap fun v => s.outgoing v.number

end Sketch

/-! ## The dot language -/

/-- **What a drawing shows** beyond the bare graph. -/
structure Style where
  /-- Nodes carry their labels, and leaves no frame. -/
  labels : Bool := true
  /-- Edges carry their sides. -/
  sides : Bool := false
  /-- A line at the end of the graph. -/
  extra : Option String := none
  deriving DecidableEq, Repr

/-- A name and its value in quotes. -/
def attr (name value : String) : String := name ++ "=\"" ++ value ++ "\""

/-- A subject with its attributes. -/
def statement (subject : String) (attributes : List String) : String :=
  subject ++ " [" ++ " ".intercalate attributes ++ "];"

/-- The statement of a node. -/
def Node.statement (style : Style) (n : Node) : String :=
  Diagram.statement (toString n.number) <|
    if style.labels then
      attr "label" n.label :: (if n.leaf then [attr "shape" "plain"] else [])
    else []

/-- The statement of an edge. -/
def Edge.statement (style : Style) (e : Edge) : String :=
  Diagram.statement (toString e.parent ++ " -> " ++ toString e.child) <|
    if style.sides then [attr "label" e.side.name] else []

/-- The lines of a graph in the dot language. -/
def dotLines (style : Style) (d : Diagram) : List String :=
  ["digraph G \x7b", "// global settings", "node [shape=\"rectangle\"];", "edge [];", "// nodes"] ++
    d.nodes.map (Node.statement style) ++ ["// edges"] ++ d.edges.map (Edge.statement style) ++
    style.extra.toList ++ ["\x7d"]

/-- **The graph in the dot language.** -/
def dot (style : Style) (d : Diagram) : String := "\n".intercalate (dotLines style d)

/-! ## Drawing -/

/-- **What starting the drawing program leads to.** -/
inductive Program where
  | missing
  /-- It ends with a code and leaves some bytes on its error stream. -/
  | exits (code : Int) (errors : List UInt8)
  deriving DecidableEq, Repr

/-- Why nothing is drawn. -/
inductive DrawError where
  | unknownType (path : String)
  | missingProgram
  /-- The path holds a null character, which no command line can hold. -/
  | nullInPath
  /-- What the program leaves on its error stream is no text. -/
  | undecodable (e : Text.Utf8.Error)
  | failed (errors : String)
  deriving DecidableEq, Repr

/-- The wording of a failed drawing. -/
def DrawError.message : DrawError → String
  | unknownType path => s!"cannot infer image type from {path}, use .svg or .png"
  | missingProgram => "[Errno 2] No such file or directory: 'dot'"
  | nullInPath => "embedded null byte"
  | undecodable e => e.message
  | failed errors => s!"dot failed: {errors}"

/-- A **run of the drawing program**: its command line and what it reads. -/
structure Call where
  command : List String
  input : String
  deriving DecidableEq, Repr

/-- **What drawing comes to.** -/
structure Drawing where
  /-- The runs of the program that were started. -/
  calls : List Call
  /-- The command line as it is announced, whether or not the program starts. -/
  announced : Option String
  error : Option DrawError
  deriving DecidableEq, Repr

/-- The kind of image that a path asks for. -/
def imageType? (path : String) : Option String :=
  if path.endsWith ".svg" then some "svg" else if path.endsWith ".png" then some "png" else none

/-- Why a run of the program that ended drew nothing.  Its error stream has to be a text even where
nothing went wrong. -/
def exitError (code : Int) (errors : List UInt8) : Option DrawError :=
  match Text.Utf8.decode errors with
  | .error e => some (.undecodable e)
  | .ok text => if code = 0 then none else some (.failed (String.ofList text))

/-- **Draws a graph** in the dot language to the path, whose ending gives the kind of image. -/
def draw (program : Program) (path input : String) : Drawing :=
  match imageType? path with
  | none => { calls := [], announced := none, error := some (.unknownType path) }
  | some type =>
    let command := ["dot", "-T" ++ type, "-o", path]
    let announced := some ("cmd: " ++ " ".intercalate command)
    if '\x00' ∈ path.toList then { calls := [], announced, error := some .nullInPath }
    else match program with
      | .missing => { calls := [], announced, error := some .missingProgram }
      | .exits code errors =>
        { calls := [⟨command, input⟩], announced, error := exitError code errors }

end Diagram

end TruthTable
