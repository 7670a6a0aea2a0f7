import Schematic.Conversion.Message

/-!
# Files from a document

A document becomes a main file with its schemas, a file with its services and a file
with its topics, the last two only if it has any.  The messages of methods and topics
stand in the file of what uses them.
-/

namespace Schematic
namespace Document

def servicePackage (d : Document) : String := FileName.subPackage d.package FileName.serviceFolder
def topicPackage (d : Document) : String := FileName.subPackage d.package FileName.topicFolder
def serviceFile (d : Document) : String := FileName.subFile d.path FileName.serviceFolder
def topicFile (d : Document) : String := FileName.subFile d.path FileName.topicFolder

/-- The types of the service and topic files. -/
def payloadTypes (d : Document) : RootNode → List TypeRef
  | .schema _ => []
  | .service node => node.objects.flatMap (ObjectNode.declared d.servicePackage d.serviceFile)
  | .topic node => node.objects.flatMap (ObjectNode.declared d.topicPackage d.topicFile)

/-- The types that a document declares, by name in their package.  A schema of the
main file counts before a payload of that name. -/
def declared (d : Document) : Dict TypeRef :=
  .ofList <| (d.nodes.flatMap d.payloadTypes ++
    SchemaNode.declaredList d.package (FileName.mainFile d.path) (RootNode.schemas d.nodes)).map
      fun t => (t.name, t)

def conversion (d : Document) (resolver : Resolver) : Conversion :=
  { path := d.path, package := d.package, scope := d.scope, declared := d.declared, resolver }

/-- All errors of the document in the order in which its elements stand. -/
def conversionErrors (d : Document) (resolver : Resolver) : List (Diagnostic SourceError) :=
  d.reach.flatMap fun
    | .ok nodes => nodes.flatMap (d.conversion resolver).rootErrors
    | .error e => [e.diagnostic]

/-! ## Drafts -/

def mainDraft (d : Document) (c : Conversion) (schemas : List SchemaNode) : FileDraft :=
  { name := FileName.mainFile d.path
    package := d.package
    imports := c.schemaImportsList schemas
    messages := c.messageDrafts d.package schemas
    enums := Conversion.enumDrafts schemas }

def serviceDraft? (d : Document) (c : Conversion) (services : List ServiceNode) : Option FileDraft :=
  if services.isEmpty then none
  else some
    { name := d.serviceFile
      package := d.servicePackage
      imports := services.flatMap c.serviceImports
      messages := (services.flatMap ServiceNode.objects).map (c.objectDraft d.servicePackage)
      services := services.map (Conversion.serviceDraft d.servicePackage) }

def topicDraft? (d : Document) (c : Conversion) (topics : List TopicNode) : Option FileDraft :=
  if topics.isEmpty then none
  else some
    { name := d.topicFile
      package := d.topicPackage
      imports := topics.flatMap c.topicImports
      messages := (topics.flatMap TopicNode.objects).map (c.objectDraft d.topicPackage)
      services := topics.map (Conversion.topicDraft d.topicPackage) }

/-- The files imported by path that none of the files needs. -/
def idleImports (d : Document) (drafts : List FileDraft) : List String :=
  (d.imports.filterMap Import.path).filter fun path => !drafts.any (·.hasImport path)

/-- The drafts of a document.  An import that no file needs stays with the main file,
where it can be reported. -/
def drafts (d : Document) (c : Conversion) (nodes : List RootNode) : List FileDraft :=
  let main := d.mainDraft c (RootNode.schemas nodes)
  let others := (d.serviceDraft? c (RootNode.services nodes)).toList ++
    (d.topicDraft? c (RootNode.topics nodes)).toList
  { main with imports := main.imports ++ d.idleImports (main :: others) } :: others

/-- The files of a document, or all its errors. -/
def convert (d : Document) (resolver : Resolver) :
    Except (List (Diagnostic SourceError)) (List FileDescriptor) :=
  let errors := d.conversionErrors resolver
  if errors.isEmpty then
    .ok ((d.drafts (d.conversion resolver) d.nodes).map FileDraft.descriptor)
  else .error errors

end Document
end Schematic
