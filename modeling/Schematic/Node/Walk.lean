import Schematic.Node.Entity

/-!
# Walking a document

Elements are taken in document order.  A malformed element is put to the visitor,
who lets the walk go on or ends it.  A fatal error always ends it.
-/

namespace Schematic

/-- The nodes of one element. -/
def Element.nodes (file : String) : Element → Except NodeError (List RootNode)
  | .object decl => do return [.schema (.object (← Build.object file [] decl.name decl))]
  | .oneof decl => do return [.schema (.oneof (← Build.oneof file [] decl.name decl))]
  | .enum decl => do return [.schema (.enum (← Build.enum file [] decl))]
  | .polymorph decl => do return [.schema (.polymorph (← Build.polymorph file [] decl))]
  | .entity decl => Entity.expand file decl
  | .service decl => do return [.service (← Build.service file decl)]
  | .topic decl => do return [.topic (← Build.topic file decl)]

/-- What each element of a document becomes. -/
def Document.outcomes (d : Document) : List (Except NodeError (List RootNode)) :=
  d.elements.map (Element.nodes d.path)

/-- All nodes that can be built. -/
def Document.nodes (d : Document) : List RootNode :=
  d.outcomes.flatMap fun
    | .ok nodes => nodes
    | .error _ => []

/-- The errors of the elements that cannot be built. -/
def Document.nodeErrors (d : Document) : List NodeError :=
  d.outcomes.filterMap fun
    | .ok _ => none
    | .error e => some e

/-- Outcomes up to the first that is fatal, that one included. -/
def NodeError.upToFatal {α : Type} : List (Except NodeError α) → List (Except NodeError α)
  | [] => []
  | .ok a :: rest => .ok a :: upToFatal rest
  | .error e :: rest => .error e :: if e.isFatal then [] else upToFatal rest

/-- What a walk meets that goes on past malformed elements. -/
def Document.reach (d : Document) : List (Except NodeError (List RootNode)) :=
  NodeError.upToFatal d.outcomes

/-- What to do at each kind of node.  By default nodes are passed over and a
malformed element ends the walk.  Nested schemas are left to the visitor. -/
structure Visitor (m : Type → Type) [Monad m] [MonadExceptOf NodeError m] where
  object : ObjectNode → m Unit := fun _ => pure ()
  oneof : OneofNode → m Unit := fun _ => pure ()
  enum : EnumNode → m Unit := fun _ => pure ()
  polymorph : PolymorphNode → m Unit := fun _ => pure ()
  service : ServiceNode → m Unit := fun _ => pure ()
  topic : TopicNode → m Unit := fun _ => pure ()
  malformed : NodeError → m Unit := throw

namespace Visitor

variable {m : Type → Type} [Monad m] [MonadExceptOf NodeError m]

def schema (v : Visitor m) : SchemaNode → m Unit
  | .object node => v.object node
  | .oneof node => v.oneof node
  | .enum node => v.enum node
  | .polymorph node => v.polymorph node

def root (v : Visitor m) : RootNode → m Unit
  | .schema node => v.schema node
  | .service node => v.service node
  | .topic node => v.topic node

def outcome (v : Visitor m) : Except NodeError (List RootNode) → m Unit
  | .ok nodes => nodes.forM v.root
  | .error e => if e.isFatal then throw e else v.malformed e

end Visitor

def Document.walk {m : Type → Type} [Monad m] [MonadExceptOf NodeError m] (v : Visitor m)
    (d : Document) : m Unit :=
  d.outcomes.forM v.outcome

end Schematic
