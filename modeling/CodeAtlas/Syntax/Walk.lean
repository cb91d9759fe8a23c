import CodeAtlas.Syntax.Statement

/-!
# Walking a tree

All statements of a module, breadth first. A clause of a compound statement is a node, so that what
stands in it is two levels below the statement.
-/

namespace CodeAtlas.Syntax

mutual

/-- The number of nodes of a statement, itself included. -/
def Stmt.nodeCount : Stmt → Nat
  | .function _ _ body => 1 + bodyCount body
  | .classDef _ _ body => 1 + bodyCount body
  | .compound _ children => 1 + nodesCount children
  | .importNames .. | .importFrom .. | .assign .. | .annotated .. | .expr .. | .other .. => 1

/-- The number of nodes of a node, itself included. -/
def Node.count : Node → Nat
  | .stmt s => s.nodeCount
  | .clause body => 1 + bodyCount body

def bodyCount : List Stmt → Nat
  | [] => 0
  | s :: ss => s.nodeCount + bodyCount ss

def nodesCount : List Node → Nat
  | [] => 0
  | n :: ns => n.count + nodesCount ns

end

/-- The nodes directly below a node, from left to right. -/
def Node.children : Node → List Node
  | .stmt (.function _ _ body) => body.map .stmt
  | .stmt (.classDef _ _ body) => body.map .stmt
  | .stmt (.compound _ children) => children
  | .stmt _ => []
  | .clause body => body.map .stmt

/-- A node together with its depth below the module. -/
structure Visit where
  depth : Nat
  node : Node

/-- Visits the first node waiting and puts the nodes below it at the end of the queue; the first
argument bounds the number of visits. -/
def walkFrom : Nat → List Visit → List Visit
  | 0, _ => []
  | _ + 1, [] => []
  | fuel + 1, v :: queue =>
    v :: walkFrom fuel (queue ++ v.node.children.map (Visit.mk (v.depth + 1)))

/-- The nodes of a module, breadth first. The statements of the module itself have depth 1. -/
def Module.walk (m : Module) : List Visit :=
  walkFrom (bodyCount m.body) (m.body.map fun s => ⟨1, .stmt s⟩)

end CodeAtlas.Syntax
