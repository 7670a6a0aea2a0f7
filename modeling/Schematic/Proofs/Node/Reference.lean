import Schematic.Proofs.Node.Numbers
import Schematic.Proofs.Node.Owner

/-!
# Properties as nodes, and what they refer to

What a property becomes can be told from its declaration, its place and the names that lead to its owner.
It refers to a schema of the kind it asks for: to the one that its declaration names, or to the one
declared in its place, which stands in its owner under that name.
-/

namespace Schematic

/-! ## Labels -/

inductive NodeKind where
  | object | oneof | enum | polymorph | service | topic
deriving DecidableEq, Repr

/-- What a node is, and its name in its package. -/
structure NodeLabel where
  kind : NodeKind
  name : String
deriving DecidableEq, Repr

def SchemaNode.label : SchemaNode → NodeLabel
  | .object node => ⟨.object, node.head.nameInPackage⟩
  | .oneof node => ⟨.oneof, node.head.nameInPackage⟩
  | .enum node => ⟨.enum, node.head.nameInPackage⟩
  | .polymorph node => ⟨.polymorph, node.head.nameInPackage⟩

def RootNode.label : RootNode → NodeLabel
  | .schema node => node.label
  | .service node => ⟨.service, node.head.name⟩
  | .topic node => ⟨.topic, node.head.name⟩

/-- The labels of schemas and of all that is nested in them. -/
def SchemaNode.labels (nodes : List SchemaNode) : List NodeLabel :=
  nodes.map label ++ (holdersList nodes).flatMap fun h => h.nested.map label

theorem SchemaNode.label_mem_labels {nodes : List SchemaNode} {node : SchemaNode} (h : node ∈ nodes) :
    node.label ∈ labels nodes :=
  List.mem_append_left _ (List.mem_map_of_mem h)

theorem SchemaNode.label_mem_labels_of_holder {nodes : List SchemaNode} {h : Holder}
    (hmem : h ∈ holdersList nodes) {child : SchemaNode} (hchild : child ∈ h.nested) :
    child.label ∈ labels nodes :=
  List.mem_append_right _ (List.mem_flatMap_of_mem hmem (List.mem_map_of_mem hchild))

theorem SchemaNode.labels_subset {nodes more : List SchemaNode} (h : nodes ⊆ more) :
    labels nodes ⊆ labels more := by
  intro label hlabel
  rcases List.mem_append.mp hlabel with hlabel | hlabel
  · exact List.mem_append_left _ (List.map_subset _ h hlabel)
  · obtain ⟨holder, hholder, hlabel⟩ := List.mem_flatMap.mp hlabel
    rw [holdersList_eq] at hholder
    refine List.mem_append_right _ (List.mem_flatMap.mpr ⟨holder, ?_, hlabel⟩)
    rw [holdersList_eq]
    obtain ⟨node, hnode, hholder⟩ := List.mem_flatMap.mp hholder
    exact List.mem_flatMap_of_mem (h hnode) hholder

/-! ## References -/

/-- The schema that a field refers to, also as the item of an array or a map, and its kind. -/
def FieldNode.reference? : FieldNode → Option (NodeKind × RefName)
  | .enum target _ _ => some (.enum, target)
  | .object target _ => some (.object, target)
  | .oneof target => some (.oneof, target)
  | .polymorph target => some (.polymorph, target)
  | .array items _ _ => items.reference?
  | .map items _ => items.reference?
  | _ => none

namespace FieldSchema

/-- The schema that a declaration names itself, and its kind. -/
def named? : FieldSchema → Option (NodeKind × RefName)
  | .enum (.named target) _ _ => some (.enum, target)
  | .object (.named target) _ => some (.object, target)
  | .oneof (.named target) => some (.oneof, target)
  | .polymorph (.named target) => some (.polymorph, target)
  | .array items _ _ => items.named?
  | .map items _ => items.named?
  | _ => none

/-- The name in its package of a schema declared in place of a property of what `path` leads to. -/
def inlinePath (path : List String) (property declared : String) : String :=
  Text.join "." (path ++ [Build.inlineName property declared])

/-- The schema declared in place of a property of what `path` leads to. -/
def inline? (path : List String) (property : String) : FieldSchema → Option NodeLabel
  | .enum (.inline decl) _ _ => some ⟨.enum, inlinePath path property decl.name⟩
  | .object (.inline decl) _ => some ⟨.object, inlinePath path property decl.name⟩
  | .oneof (.inline decl) => some ⟨.oneof, inlinePath path property decl.name⟩
  | .polymorph (.inline decl) => some ⟨.polymorph, inlinePath path property decl.name⟩
  | .array items _ _ => items.inline? path property
  | .map items _ => items.inline? path property
  | _ => none

/-- The field that a property of what `path` leads to becomes. -/
def node (path : List String) (property : String) : FieldSchema → FieldNode
  | .string f => .string f
  | .integer f => .integer f
  | .float f => .float f
  | .decimal r => .decimal r
  | .date r => .date r
  | .timestamp r => .timestamp r
  | .bool f => .bool f
  | .bytes f => .bytes f
  | .key f => .key f
  | .enum (.named target) rules r => .enum target rules r
  | .enum (.inline decl) rules r => .enum { schema := inlinePath path property decl.name } rules r
  | .object (.named target) flatten => .object target flatten
  | .object (.inline decl) flatten => .object { schema := inlinePath path property decl.name } flatten
  | .oneof (.named target) => .oneof target
  | .oneof (.inline decl) => .oneof { schema := inlinePath path property decl.name }
  | .polymorph (.named target) => .polymorph target
  | .polymorph (.inline decl) => .polymorph { schema := inlinePath path property decl.name }
  | .array items rules singleForm => .array (items.node path property) rules singleForm
  | .map items rules => .map (items.node path property) rules
  | .any f => .any f

/-- A field refers to what its declaration names or to what is declared in its place. -/
theorem reference?_node {path : List String} {property : String} {schema : FieldSchema}
    {kind : NodeKind} {target : RefName}
    (h : (schema.node path property).reference? = some (kind, target)) :
    schema.named? = some (kind, target) ∨
      ∃ name, schema.inline? path property = some ⟨kind, name⟩ ∧ target = { schema := name } := by
  fun_induction FieldSchema.node path property schema with
  | case10 _ _ _ | case12 _ _ | case14 _ | case16 _ => exact .inl h
  | case11 decl _ _ | case13 decl _ | case15 decl | case17 decl =>
      cases h
      exact .inr ⟨_, rfl, rfl⟩
  | case18 items rules singleForm ih => exact ih h
  | case19 items rules ih => exact ih h
  | _ => cases h

end FieldSchema

namespace Build

variable {file : String} {owner : Head} {property : String} {schema : FieldSchema} {kind : FieldNode}
  {hoisted : List SchemaNode}

/-- A schema that stands in `path` under the name for what is declared in place has that label. -/
theorem nameInPackage_inline {head : Head} {path : List String} {declared : String}
    (h : head.childNest = path ++ [inlineName property declared]) :
    head.nameInPackage = FieldSchema.inlinePath path property declared := by
  rw [Head.nameInPackage, h, FieldSchema.inlinePath]

theorem field_node (h : field file owner property schema = .ok (kind, hoisted)) :
    kind = schema.node owner.childNest property ∧
      hoisted.map SchemaNode.label = (schema.inline? owner.childNest property).toList := by
  fun_induction FieldSchema.node owner.childNest property schema generalizing kind hoisted with
  | case11 decl rules r =>
      rw [field] at h
      obtain ⟨node, hnode, h⟩ := bind_eq_ok h
      cases h
      have hname := nameInPackage_inline (enum_childNest hnode)
      rw [hname, List.map_singleton, SchemaNode.label, hname]
      exact ⟨rfl, rfl⟩
  | case13 decl flatten =>
      rw [field] at h
      obtain ⟨node, hnode, h⟩ := bind_eq_ok h
      cases h
      have hname := nameInPackage_inline (object_childNest hnode)
      rw [hname, List.map_singleton, SchemaNode.label, hname]
      exact ⟨rfl, rfl⟩
  | case15 decl =>
      rw [field] at h
      obtain ⟨node, hnode, h⟩ := bind_eq_ok h
      cases h
      have hname := nameInPackage_inline (oneof_childNest hnode)
      rw [hname, List.map_singleton, SchemaNode.label, hname]
      exact ⟨rfl, rfl⟩
  | case17 decl =>
      rw [field] at h
      obtain ⟨node, hnode, h⟩ := bind_eq_ok h
      cases h
      have hname := nameInPackage_inline (polymorph_childNest hnode)
      rw [hname, List.map_singleton, SchemaNode.label, hname]
      exact ⟨rfl, rfl⟩
  | case18 items rules singleForm ih =>
      rw [field] at h
      obtain ⟨⟨item, inner⟩, hitem, h⟩ := bind_eq_ok h
      cases h
      obtain ⟨rfl, hlabels⟩ := ih hitem
      exact ⟨rfl, hlabels⟩
  | case19 items rules ih =>
      rw [field] at h
      obtain ⟨⟨item, inner⟩, hitem, h⟩ := bind_eq_ok h
      cases h
      obtain ⟨rfl, hlabels⟩ := ih hitem
      exact ⟨rfl, hlabels⟩
  | _ =>
      -- Nothing else declares a schema in its place.
      cases h
      exact ⟨rfl, rfl⟩

end Build

/-! ## Properties -/

namespace PropertyDecl

/-- The property that stands at `place` of what `path` leads to. -/
def nodeAt (path : List String) (place : Nat) (p : PropertyDecl) : PropertyNode where
  name := p.name
  description := p.description
  number := p.numberAt place
  required := p.required
  optional := p.optional
  entityKey := p.entityKey
  field := p.schema.node path p.name
  span := p.span

/-- The properties that stand from `place` on. -/
def nodesFrom (path : List String) (place : Nat) (ps : List PropertyDecl) : List PropertyNode :=
  (ps.zipIdx place).map fun x => x.1.nodeAt path x.2

theorem nodesFrom_append (path : List String) (place : Nat) (ps others : List PropertyDecl) :
    nodesFrom path place (ps ++ others) =
      nodesFrom path place ps ++ nodesFrom path (place + ps.length) others := by
  rw [nodesFrom, List.zipIdx_append, List.map_append]
  rfl

theorem exists_of_mem_nodesFrom {path : List String} {place : Nat} {ps : List PropertyDecl}
    {n : PropertyNode} (h : n ∈ nodesFrom path place ps) :
    ∃ p ∈ ps, n.name = p.name ∧ n.field = p.schema.node path p.name := by
  obtain ⟨⟨p, i⟩, hmem, rfl⟩ := List.mem_map.mp h
  exact ⟨p, List.fst_mem_of_mem_zipIdx hmem, rfl, rfl⟩

end PropertyDecl

namespace Build

/-- Properties become what they are declared as, and what is declared in their place comes along. -/
theorem properties_nodes {file : String} {owner : Head} {names : List String} {numbers : List Int}
    {place : Nat} {decls : List PropertyDecl} {nodes : List PropertyNode} {hoisted : List SchemaNode}
    (h : properties file owner names numbers place decls = .ok (nodes, hoisted)) :
    nodes = PropertyDecl.nodesFrom owner.childNest place decls ∧
      hoisted.map SchemaNode.label =
        decls.filterMap fun p => p.schema.inline? owner.childNest p.name := by
  induction decls generalizing names numbers place nodes hoisted with
  | nil =>
      rw [properties] at h
      cases h
      exact ⟨rfl, rfl⟩
  | cons decl rest ih =>
      rw [properties] at h
      obtain ⟨⟨node, inner⟩, hnode, h⟩ := bind_eq_ok h
      obtain ⟨⟨others, outer⟩, hrest, h⟩ := bind_eq_ok h
      cases h
      obtain ⟨rfl, hothers⟩ := ih hrest
      rw [property_eq] at hnode
      obtain ⟨n, hn, hnode⟩ := bind_eq_ok hnode
      obtain ⟨⟨kind, inner⟩, hkind, hnode⟩ := bind_eq_ok hnode
      cases hnode
      obtain ⟨rfl, hinner⟩ := field_node hkind
      obtain ⟨rfl, -⟩ := propertyNumber_ok hn
      refine ⟨rfl, ?_⟩
      rw [List.map_append, hinner, hothers, List.filterMap_cons]
      cases decl.schema.inline? owner.childNest decl.name with
      | none => rfl
      | some label => rfl

end Build

namespace Owner

theorem BuiltInto.nodes {o : Owner} {h : Holder} (hbuilt : o.BuiltInto h) :
    h.properties = PropertyDecl.nodesFrom o.path 1 o.properties := by
  obtain ⟨file, owner, hoisted, hpath, hproperties, -⟩ := hbuilt.properties
  rw [← hpath]
  exact (Build.properties_nodes hproperties).1

/-- What is declared in place of a property stands in the node. -/
theorem BuiltInto.exists_inline {o : Owner} {h : Holder} (hbuilt : o.BuiltInto h) {p : PropertyDecl}
    (hp : p ∈ o.properties) {label : NodeLabel} (hlabel : p.schema.inline? o.path p.name = some label) :
    ∃ child ∈ h.nested, child.label = label := by
  obtain ⟨file, owner, hoisted, hpath, hproperties, hsub⟩ := hbuilt.properties
  rw [← hpath] at hlabel
  have hmem : label ∈ hoisted.map SchemaNode.label := by
    rw [(Build.properties_nodes hproperties).2]
    exact List.mem_filterMap.mpr ⟨p, hp, hlabel⟩
  obtain ⟨child, hchild, heq⟩ := List.mem_map.mp hmem
  exact ⟨child, hsub hchild, heq⟩

end Owner
end Schematic
