import Schematic.Conversion.Error
import Schematic.Node.Walk

/-!
# Summaries

What a document declares and what it needs, known before any type is looked up: the
types it exports, the types and packages of others that it names, and the files that
come of it.
-/

namespace Schematic

/-! ## Types that schemas declare -/

mutual

def ObjectNode.declared (package file : String) : ObjectNode → List TypeRef
  | { head, nested, entity, .. } =>
    ⟨package, head.nameInPackage, file, .object entity⟩ :: SchemaNode.declaredList package file nested

def OneofNode.declared (package file : String) : OneofNode → List TypeRef
  | { head, nested, .. } =>
    ⟨package, head.nameInPackage, file, .oneof⟩ :: SchemaNode.declaredList package file nested

/-- The types that a schema and those nested in it declare, outer ones first. -/
def SchemaNode.declared (package file : String) : SchemaNode → List TypeRef
  | .object node => node.declared package file
  | .oneof node => node.declared package file
  | .enum node => [⟨package, node.head.nameInPackage, file, .enum node.table⟩]
  | .polymorph node => [⟨package, node.head.nameInPackage, file, .polymorph node.members⟩]

def SchemaNode.declaredList (package file : String) : List SchemaNode → List TypeRef
  | [] => []
  | node :: rest => node.declared package file ++ SchemaNode.declaredList package file rest

end

/-! ## Types that schemas name -/

/-- The types that properties name, each with the span of its property. -/
def PropertyNode.references (properties : List PropertyNode) : List (RefName × Span) :=
  properties.filterMap fun p => p.field.target?.map fun target => (target, p.span)

mutual

def ObjectNode.references : ObjectNode → List (RefName × Span)
  | { properties, nested, .. } =>
    PropertyNode.references properties ++ SchemaNode.referencesList nested

def OneofNode.references : OneofNode → List (RefName × Span)
  | { properties, nested, .. } =>
    PropertyNode.references properties ++ SchemaNode.referencesList nested

def SchemaNode.references : SchemaNode → List (RefName × Span)
  | .object node => node.references
  | .oneof node => node.references
  | .enum _ => []
  | .polymorph _ => []

def SchemaNode.referencesList : List SchemaNode → List (RefName × Span)
  | [] => []
  | node :: rest => node.references ++ SchemaNode.referencesList rest

end

/-! ## Nodes of a document, by kind -/

namespace RootNode

def schemas (nodes : List RootNode) : List SchemaNode :=
  nodes.filterMap fun
    | .schema node => some node
    | _ => none

def services (nodes : List RootNode) : List ServiceNode :=
  nodes.filterMap fun
    | .service node => some node
    | _ => none

def topics (nodes : List RootNode) : List TopicNode :=
  nodes.filterMap fun
    | .topic node => some node
    | _ => none

end RootNode

/-- The objects of a service: request and response of each method. -/
def ServiceNode.objects (node : ServiceNode) : List ObjectNode :=
  node.methods.flatMap fun m => [m.request, m.response]

def TopicNode.objects (node : TopicNode) : List ObjectNode :=
  node.messages.map TopicMessageNode.message

def RootNode.references : RootNode → List (RefName × Span)
  | .schema node => node.references
  | .service node => node.objects.flatMap ObjectNode.references
  | .topic node => node.objects.flatMap ObjectNode.references

/-! ## Summaries -/

/-- A type of another package, by name. -/
structure TypeDependency where
  package : String
  schema : String
  span : Span := {}
deriving DecidableEq, Repr

namespace TypeDependency

def spanLt : List Nat → List Nat → Bool
  | [], [] => false
  | [], _ :: _ => true
  | _ :: _, [] => false
  | a :: p, b :: q => if a < b then true else if b < a then false else spanLt p q

/-- By package, then schema, then span. -/
def lt (a b : TypeDependency) : Bool :=
  if a.package < b.package then true
  else if b.package < a.package then false
  else if a.schema < b.schema then true
  else if b.schema < a.schema then false
  else spanLt a.span.key b.span.key

end TypeDependency

structure Summary where
  sourceFile : String := ""
  package : String := ""
  /-- The types declared, under their full names. -/
  exports : Dict TypeRef := {}
  fileDependencies : List String := []
  typeDependencies : List TypeDependency := []
  /-- Packages imported by name, used or not. -/
  packageImports : List String := []
  /-- The files that come of this one, the main file first. -/
  produces : List String := []
deriving DecidableEq, Repr

namespace Summary

/-- The other packages that a file names. -/
def packageDependencies (s : Summary) : List String :=
  Sorted.names ((s.typeDependencies.map TypeDependency.package ++ s.packageImports).filter
    (· ≠ s.package))

def export? (s : Summary) (package name : String) : Option TypeRef :=
  s.exports.get? (package ++ "." ++ name)

end Summary

namespace Document

def scope (d : Document) : ImportScope :=
  .ofImports d.imports

/-- The dependency that a reference makes.  Types of the document's own package and of
the well-known ones make none. -/
def dependency? (d : Document) (target : RefName) (span : Span) : Option TypeDependency :=
  target.package.bind fun qualifier =>
    let package := d.scope.expand qualifier
    if package = d.package || WellKnown.isPackage package then none
    else some ⟨package, target.schema, span⟩

def produces (d : Document) (nodes : List RootNode) : List String :=
  FileName.mainFile d.path ::
    (if (RootNode.services nodes).isEmpty then []
      else [FileName.subFile d.path FileName.serviceFolder]) ++
    (if (RootNode.topics nodes).isEmpty then []
      else [FileName.subFile d.path FileName.topicFolder])

def exports (d : Document) (nodes : List RootNode) : Dict TypeRef :=
  .ofList <| (SchemaNode.declaredList d.package (FileName.mainFile d.path)
    (RootNode.schemas nodes)).map fun t => (t.fullName, t)

def summaryOf (d : Document) (nodes : List RootNode) : Summary :=
  { sourceFile := d.path
    package := d.package
    exports := d.exports nodes
    fileDependencies := Sorted.names (d.imports.filterMap Import.path)
    typeDependencies := Sorted.ofList TypeDependency.lt
      ((nodes.flatMap RootNode.references).filterMap fun (target, span) => d.dependency? target span)
    packageImports := Sorted.names (d.imports.filterMap Import.package)
    produces := d.produces nodes }

/-- The errors of a walk that goes on past malformed elements. -/
def reachErrors (d : Document) : List NodeError :=
  d.reach.filterMap fun
    | .ok _ => none
    | .error e => some e

/-- The summary, if every element can be built. -/
def summary (d : Document) : Except (List (Diagnostic SourceError)) Summary :=
  if d.reachErrors.isEmpty then .ok (d.summaryOf d.nodes)
  else .error (d.reachErrors.map NodeError.diagnostic)

end Document
end Schematic
