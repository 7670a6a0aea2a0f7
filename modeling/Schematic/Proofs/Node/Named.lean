import Schematic.Proofs.Node.Expansion

/-!
# Names

No node has a blank name, nor has anything in a node, at any depth.  The one exception is the topic of a
summary, which takes the name of the summary as it is.  A declaration that lacks a name costs its element,
with an error placed in the file of the document.
-/

namespace Schematic

/-! ## Blank names -/

namespace Text

theorem isBlank_append (a b : String) : isBlank (a ++ b) = (isBlank a && isBlank b) := by
  rw [isBlank, String.toList_append, List.all_append]
  rfl

theorem isBlank_append_of_right {a b : String} (h : isBlank b = false) : isBlank (a ++ b) = false := by
  rw [isBlank_append, h, Bool.and_false]

def NoneBlank (names : List String) : Prop :=
  ∀ name ∈ names, isBlank name = false

variable {name : String} {names others : List String}

@[simp] theorem noneBlank_nil : NoneBlank [] :=
  fun _ h => absurd h List.not_mem_nil

@[simp] theorem noneBlank_cons :
    NoneBlank (name :: names) ↔ isBlank name = false ∧ NoneBlank names :=
  List.forall_mem_cons

@[simp] theorem noneBlank_append :
    NoneBlank (names ++ others) ↔ NoneBlank names ∧ NoneBlank others :=
  List.forall_mem_append

theorem noneBlank_flatMap {α : Type} {f : α → List String} {l : List α} :
    NoneBlank (l.flatMap f) ↔ ∀ a ∈ l, NoneBlank (f a) :=
  List.forall_mem_flatMap

end Text

open Text (isBlank NoneBlank)

namespace Case

theorem toUpper_of_blank {c : Char} (h : Text.isBlankChar c = true) : c.toUpper = c := by
  refine dif_neg fun hc => ?_
  simp [Text.isBlankChar, UInt32.le_iff_toNat_le] at h hc
  omega

theorem camelFrom_of_blank {raise : Bool} {l : List Char} (h : l.all Text.isBlankChar = true) :
    camelFrom raise l = l := by
  induction l generalizing raise with
  | nil => rfl
  | cons c rest ih =>
      rw [List.all_cons, Bool.and_eq_true] at h
      have hletter : c ≠ '_' := by
        rintro rfl
        exact absurd h.1 (by decide)
      rw [camelFrom, if_neg hletter, ih h.2, toUpper_of_blank h.1, ite_self]

/-- The letter case of a blank name changes nothing. -/
theorem isBlank_of_upperCamel {name : String} (h : isBlank (upperCamel name) = false) :
    isBlank name = false := by
  by_contra hblank
  rw [Bool.not_eq_false] at hblank
  rw [upperCamel, camelFrom_of_blank hblank, String.ofList_toList, hblank] at h
  cases h

end Case

/-! ## Names of nodes -/

mutual

/-- The names of an object, of its properties and of all that is nested in it. -/
def ObjectNode.names : ObjectNode → List String
  | { head, properties, nested, .. } =>
    head.name :: properties.map PropertyNode.name ++ SchemaNode.namesList nested

def OneofNode.names : OneofNode → List String
  | { head, properties, nested, .. } =>
    head.name :: properties.map PropertyNode.name ++ SchemaNode.namesList nested

def SchemaNode.names : SchemaNode → List String
  | .object node => node.names
  | .oneof node => node.names
  | .enum node => node.head.name :: node.options.map EnumOption.name
  | .polymorph node => [node.head.name]

def SchemaNode.namesList : List SchemaNode → List String
  | [] => []
  | node :: rest => node.names ++ SchemaNode.namesList rest

end

def MethodNode.names (m : MethodNode) : List String :=
  m.name :: m.request.names ++ m.response.names

def TopicMessageNode.names (m : TopicMessageNode) : List String :=
  m.name :: m.message.names

def RootNode.names : RootNode → List String
  | .schema node => node.names
  | .service node => node.head.name :: node.methods.flatMap MethodNode.names
  | .topic node => node.head.name :: node.messages.flatMap TopicMessageNode.names

theorem ObjectNode.names_eq (node : ObjectNode) : node.names =
    node.head.name :: node.properties.map PropertyNode.name ++ SchemaNode.namesList node.nested := by
  cases node
  rw [names]

theorem OneofNode.names_eq (node : OneofNode) : node.names =
    node.head.name :: node.properties.map PropertyNode.name ++ SchemaNode.namesList node.nested := by
  cases node
  rw [names]

theorem SchemaNode.namesList_eq (nodes : List SchemaNode) : namesList nodes = nodes.flatMap names := by
  induction nodes with
  | nil => rfl
  | cons node rest ih => rw [namesList, ih, List.flatMap_cons]

theorem SchemaNode.namesList_append (a b : List SchemaNode) :
    namesList (a ++ b) = namesList a ++ namesList b := by
  rw [namesList_eq, namesList_eq, namesList_eq, List.flatMap_append]

theorem SchemaNode.name_mem_names (node : SchemaNode) : node.head.name ∈ node.names := by
  cases node with
  | object node =>
      rw [names, ObjectNode.names_eq]
      exact List.mem_cons_self
  | oneof node =>
      rw [names, OneofNode.names_eq]
      exact List.mem_cons_self
  | enum node => exact List.mem_cons_self
  | polymorph node => exact List.mem_cons_self

/-! ## Names of declarations

These are the names that a declaration has to bring.  A schema declared in place may leave its name empty
and takes that of the property, and a group of commands may do without one. -/

/-- The name of a schema declared in place, unless it is left to the property. -/
def Build.givenName (declared : String) : List String :=
  if declared = "" then [] else [declared]

def EnumDecl.optionNames (decl : EnumDecl) : List String :=
  decl.options.map EnumOption.name

mutual

def FieldSchema.givenNames : FieldSchema → List String
  | .enum (.inline decl) _ _ => Build.givenName decl.name ++ decl.optionNames
  | .object (.inline decl) _ => Build.givenName decl.name ++ decl.innerNames
  | .oneof (.inline decl) => Build.givenName decl.name ++ decl.innerNames
  | .polymorph (.inline decl) => Build.givenName decl.name
  | .array items _ _ => items.givenNames
  | .map items _ => items.givenNames
  | _ => []

def PropertyDecl.givenNames : PropertyDecl → List String
  | { name, schema, .. } => name :: schema.givenNames

def PropertyDecl.givenNamesList : List PropertyDecl → List String
  | [] => []
  | decl :: rest => decl.givenNames ++ PropertyDecl.givenNamesList rest

/-- All names in an object but its own. -/
def ObjectDecl.innerNames : ObjectDecl → List String
  | { properties, schemas, .. } =>
    Declaration.givenNamesList schemas ++ PropertyDecl.givenNamesList properties

def OneofDecl.innerNames : OneofDecl → List String
  | { properties, schemas, .. } =>
    Declaration.givenNamesList schemas ++ PropertyDecl.givenNamesList properties

def Declaration.givenNames : Declaration → List String
  | .object decl => decl.name :: decl.innerNames
  | .oneof decl => decl.name :: decl.innerNames
  | .enum decl => decl.name :: decl.optionNames
  | .polymorph decl => [decl.name]

def Declaration.givenNamesList : List Declaration → List String
  | [] => []
  | decl :: rest => decl.givenNames ++ Declaration.givenNamesList rest

end

def MethodDecl.givenNames (decl : MethodDecl) : List String :=
  decl.name :: PropertyDecl.givenNamesList decl.request ++ PropertyDecl.givenNamesList decl.response

def TopicMessageDecl.givenNames (decl : TopicMessageDecl) : List String :=
  decl.name :: PropertyDecl.givenNamesList decl.properties

def EventDecl.givenNames (decl : EventDecl) : List String :=
  decl.name :: PropertyDecl.givenNamesList decl.properties

/-- All names in an entity but those of its summaries. -/
def EntityDecl.givenNames (decl : EntityDecl) : List String :=
  decl.name :: PropertyDecl.givenNamesList decl.keys ++ PropertyDecl.givenNamesList decl.data ++
    decl.status.map StatusDecl.name ++ decl.events.flatMap EventDecl.givenNames ++
    decl.commands.flatMap (fun group => group.methods.flatMap MethodDecl.givenNames) ++
    decl.summaries.flatMap (fun summary => PropertyDecl.givenNamesList summary.properties) ++
    Declaration.givenNamesList decl.schemas

def Element.givenNames : Element → List String
  | .object decl => decl.name :: decl.innerNames
  | .oneof decl => decl.name :: decl.innerNames
  | .enum decl => decl.name :: decl.optionNames
  | .polymorph decl => [decl.name]
  | .entity decl => decl.givenNames
  | .service decl => decl.name.getD "" :: decl.methods.flatMap MethodDecl.givenNames
  | .topic decl => decl.name :: (Build.topicParts decl.kind).2.flatMap TopicMessageDecl.givenNames

/-! ## What building gives -/

namespace Build

open SchemaNode

variable {file : String} {fatal : Prop} {nest : List String} {α β : Type}

/-- What is built is as asked for, or an error in the file costs the element.  It costs the whole document
for one reason only. -/
def Gives (file : String) (fatal : Prop) (P : α → Prop) : Except NodeError α → Prop
  | .ok a => P a
  | .error e => e.place.file = file ∧ (e.isFatal = true → fatal)

@[simp] theorem gives_pure {P : α → Prop} {a : α} : Gives file fatal P (pure a) ↔ P a :=
  Iff.rfl

theorem Gives.bind {P : α → Prop} {Q : β → Prop} {x : Except NodeError α} {f : α → Except NodeError β}
    (hx : Gives file fatal P x) (hf : ∀ a, P a → Gives file fatal Q (f a)) : Gives file fatal Q (x >>= f) := by
  cases x with
  | ok a => exact hf a hx
  | error e => exact hx

theorem Gives.mono {P Q : α → Prop} {x : Except NodeError α} (hx : Gives file fatal P x)
    (h : ∀ a, P a → Q a) : Gives file fatal Q x := by
  cases x with
  | ok a => exact h a hx
  | error e => exact hx

/-- Each item is built as asked for, and nothing else is. -/
theorem Gives.mapM {P : α → β → Prop} {f : α → Except NodeError β} {l : List α}
    (h : ∀ a ∈ l, Gives file fatal (P a) (f a)) : Gives file fatal
      (fun bs => (∀ a ∈ l, ∃ b, P a b) ∧ ∀ b ∈ bs, ∃ a ∈ l, P a b) (l.mapM f) := by
  have hmade : ∀ {a b}, a ∈ l → f a = .ok b → P a b := by
    intro a b ha hb
    have hgives := h a ha
    rw [hb] at hgives
    exact hgives
  cases hl : l.mapM f with
  | ok bs =>
      refine ⟨fun a ha => ?_, fun b hb => ?_⟩
      · obtain ⟨b, -, hb⟩ := exists_mem_of_mapM hl ha
        exact ⟨b, hmade ha hb⟩
      · obtain ⟨a, ha, hb⟩ := exists_of_mem_mapM hl hb
        exact ⟨a, ha, hmade ha hb⟩
  | error e =>
      obtain ⟨a, ha, he⟩ := exists_of_mapM_error hl
      have hgives := h a ha
      rw [he] at hgives
      exact hgives

theorem gives_fault {P : α → Prop} (span : Span) (cause : Malformation) :
    Gives file fatal P (fault file span cause) :=
  ⟨rfl, fun h => nomatch h⟩

theorem gives_requireName (what name : String) (span : Span) :
    Gives file fatal (fun _ => isBlank name = false) (requireName file what name span) := by
  rw [requireName]
  split
  · exact gives_fault ..
  · rename_i h
    exact Bool.not_eq_true _ ▸ h

theorem gives_checkOptions (enum valuePrefix : String) (seen : List String)
    (options : List EnumOption) : Gives file fatal (fun _ => NoneBlank (options.map EnumOption.name))
      (checkOptions file enum valuePrefix seen options) := by
  induction options generalizing seen with
  | nil => exact Text.noneBlank_nil
  | cons option rest ih =>
      rw [checkOptions]
      refine (gives_requireName ..).bind fun _ hname => ?_
      dsimp only
      split
      · exact gives_fault ..
      · split
        · exact gives_fault ..
        · exact (ih _).mono fun _ hrest => Text.noneBlank_cons.mpr ⟨hname, hrest⟩

theorem gives_enum (decl : EnumDecl) : Gives file fatal
    (fun node => NoneBlank (decl.name :: decl.optionNames) ∧ NoneBlank (SchemaNode.enum node).names)
    (enum file nest decl) := by
  refine (gives_requireName ..).bind fun _ hname => (gives_checkOptions ..).bind fun _ hoptions => ?_
  have hall := Text.noneBlank_cons.mpr ⟨hname, hoptions⟩
  exact ⟨hall, hall⟩

theorem gives_polymorph (decl : PolymorphDecl) : Gives file fatal
    (fun node => NoneBlank [decl.name] ∧ NoneBlank (SchemaNode.polymorph node).names)
    (polymorph file nest decl) := by
  refine (gives_requireName ..).bind fun _ hname => ?_
  have hall := Text.noneBlank_cons.mpr ⟨hname, Text.noneBlank_nil⟩
  exact ⟨hall, hall⟩

theorem gives_propertyNumber (owner : String) (names : List String) (numbers : List Int) (place : Nat)
    (name : String) (number : Option Int32) (span : Span) :
    Gives file fatal (fun _ => isBlank name = false)
      (propertyNumber file owner names numbers place name number span) := by
  refine (gives_requireName ..).bind fun _ hname => ?_
  dsimp only
  split_ifs
  · exact gives_fault ..
  · exact gives_fault ..
  · exact gives_fault ..
  · exact hname

theorem gives_checkBranches (oneof : String) (branches : List PropertyNode) :
    Gives file fatal (fun _ => True) (checkBranches file oneof branches) := by
  induction branches with
  | nil => trivial
  | cons p rest ih =>
      rw [checkBranches]
      split
      · exact gives_fault ..
      · exact ih

/-- A name that was not left to the property is the one that is checked. -/
theorem noneBlank_givenName {property declared : String}
    (h : isBlank (inlineName property declared) = false) : NoneBlank (givenName declared) := by
  rw [givenName]
  split
  · exact Text.noneBlank_nil
  · rename_i hgiven
    rw [inlineName, if_neg hgiven] at h
    exact Text.noneBlank_cons.mpr ⟨h, Text.noneBlank_nil⟩

mutual

theorem gives_field (owner : Head) (property : String) : (schema : FieldSchema) → Gives file fatal
    (fun built => NoneBlank schema.givenNames ∧ NoneBlank (namesList built.2))
    (field file owner property schema)
  | .string _ => by simp [field, Gives, FieldSchema.givenNames, namesList]
  | .integer _ => by simp [field, Gives, FieldSchema.givenNames, namesList]
  | .float _ => by simp [field, Gives, FieldSchema.givenNames, namesList]
  | .decimal _ => by simp [field, Gives, FieldSchema.givenNames, namesList]
  | .date _ => by simp [field, Gives, FieldSchema.givenNames, namesList]
  | .timestamp _ => by simp [field, Gives, FieldSchema.givenNames, namesList]
  | .bool _ => by simp [field, Gives, FieldSchema.givenNames, namesList]
  | .bytes _ => by simp [field, Gives, FieldSchema.givenNames, namesList]
  | .key _ => by simp [field, Gives, FieldSchema.givenNames, namesList]
  | .any _ => by simp [field, Gives, FieldSchema.givenNames, namesList]
  | .enum (.named _) _ _ => by simp [field, Gives, FieldSchema.givenNames, namesList]
  | .object (.named _) _ => by simp [field, Gives, FieldSchema.givenNames, namesList]
  | .oneof (.named _) => by simp [field, Gives, FieldSchema.givenNames, namesList]
  | .polymorph (.named _) => by simp [field, Gives, FieldSchema.givenNames, namesList]
  | .enum (.inline decl) _ _ => by
      rw [field]
      refine (gives_enum _).bind ?_
      rintro node ⟨hdecl, hnode⟩
      -- The name that was checked is the given one, or that of the property in its stead.
      rw [Text.noneBlank_cons] at hdecl
      rw [FieldSchema.givenNames]
      exact ⟨Text.noneBlank_append.mpr ⟨noneBlank_givenName hdecl.1, hdecl.2⟩, by
        simpa [namesList] using hnode⟩
  | .object (.inline decl) _ => by
      rw [field]
      refine (gives_object (inlineName property decl.name) decl).bind ?_
      rintro node ⟨hdecl, hnode⟩
      rw [Text.noneBlank_cons] at hdecl
      rw [FieldSchema.givenNames]
      exact ⟨Text.noneBlank_append.mpr ⟨noneBlank_givenName hdecl.1, hdecl.2⟩, by
        simpa [namesList, names] using hnode⟩
  | .oneof (.inline decl) => by
      rw [field]
      refine (gives_oneof (inlineName property decl.name) decl).bind ?_
      rintro node ⟨hdecl, hnode⟩
      rw [Text.noneBlank_cons] at hdecl
      rw [FieldSchema.givenNames]
      exact ⟨Text.noneBlank_append.mpr ⟨noneBlank_givenName hdecl.1, hdecl.2⟩, by
        simpa [namesList, names] using hnode⟩
  | .polymorph (.inline decl) => by
      rw [field]
      refine (gives_polymorph _).bind ?_
      rintro node ⟨hdecl, hnode⟩
      rw [Text.noneBlank_cons] at hdecl
      rw [FieldSchema.givenNames]
      exact ⟨noneBlank_givenName hdecl.1, by simpa [namesList] using hnode⟩
  | .array items _ _ => by
      rw [field, FieldSchema.givenNames]
      exact (gives_field owner property items).bind fun _ hitems => hitems
  | .map items _ => by
      rw [field, FieldSchema.givenNames]
      exact (gives_field owner property items).bind fun _ hitems => hitems

theorem gives_property (owner : Head) (names : List String) (numbers : List Int) (place : Nat) :
    (decl : PropertyDecl) → Gives file fatal
      (fun built => NoneBlank decl.givenNames ∧ isBlank built.1.name = false ∧
        NoneBlank (namesList built.2))
      (property file owner names numbers place decl)
  | { name, description, required, optional, entityKey, number, schema, span } => by
      rw [property, PropertyDecl.givenNames]
      refine (gives_propertyNumber ..).bind fun _ hname => (gives_field owner name schema).bind ?_
      rintro _ ⟨hschema, hhoisted⟩
      exact ⟨Text.noneBlank_cons.mpr ⟨hname, hschema⟩, hname, hhoisted⟩

theorem gives_properties (owner : Head) (names : List String) (numbers : List Int) (place : Nat) :
    (decls : List PropertyDecl) → Gives file fatal
      (fun built => NoneBlank (PropertyDecl.givenNamesList decls) ∧
        NoneBlank (built.1.map PropertyNode.name) ∧ NoneBlank (namesList built.2))
      (properties file owner names numbers place decls)
  | [] => ⟨Text.noneBlank_nil, Text.noneBlank_nil, Text.noneBlank_nil⟩
  | decl :: rest => by
      rw [properties, PropertyDecl.givenNamesList]
      refine (gives_property owner names numbers place decl).bind ?_
      rintro _ ⟨hdecl, hname, hhoisted⟩
      refine (gives_properties owner _ _ _ rest).bind ?_
      rintro _ ⟨hrest, hnames, hothers⟩
      refine ⟨Text.noneBlank_append.mpr ⟨hdecl, hrest⟩, Text.noneBlank_cons.mpr ⟨hname, hnames⟩, ?_⟩
      rw [namesList_append]
      exact Text.noneBlank_append.mpr ⟨hhoisted, hothers⟩

theorem gives_object {nest : List String} (name : String) : (decl : ObjectDecl) → Gives file fatal
    (fun node => NoneBlank (name :: decl.innerNames) ∧ NoneBlank node.names)
    (object file nest name decl)
  | { name := _, description, properties := props, schemas, polymorphMember, span } => by
      rw [object, ObjectDecl.innerNames]
      refine (gives_requireName ..).bind fun _ hname => (gives_declarations schemas).bind ?_
      rintro _ ⟨hschemas, hdeclared⟩
      refine (gives_properties _ _ _ _ props).bind ?_
      rintro _ ⟨hprops, hnames, hhoisted⟩
      refine ⟨by simp [hname, hschemas, hprops], ?_⟩
      rw [ObjectNode.names, namesList_append]
      simp [hname, hdeclared, hnames, hhoisted]

theorem gives_oneof {nest : List String} (name : String) : (decl : OneofDecl) → Gives file fatal
    (fun node => NoneBlank (name :: decl.innerNames) ∧ NoneBlank node.names)
    (oneof file nest name decl)
  | { name := _, description, properties := props, schemas, span } => by
      rw [oneof, OneofDecl.innerNames]
      refine (gives_requireName ..).bind fun _ hname => (gives_declarations schemas).bind ?_
      rintro _ ⟨hschemas, hdeclared⟩
      refine (gives_properties _ _ _ _ props).bind ?_
      rintro _ ⟨hprops, hnames, hhoisted⟩
      refine (gives_checkBranches ..).bind fun _ _ => ?_
      refine ⟨by simp [hname, hschemas, hprops], ?_⟩
      rw [OneofNode.names, namesList_append]
      simp [hname, hdeclared, hnames, hhoisted]

theorem gives_declaration {nest : List String} : (decl : Declaration) → Gives file fatal
    (fun node => NoneBlank decl.givenNames ∧ NoneBlank node.names) (declaration file nest decl)
  | .object decl => by
      rw [declaration, Declaration.givenNames]
      exact (gives_object decl.name decl).bind fun _ hnode => hnode
  | .oneof decl => by
      rw [declaration, Declaration.givenNames]
      exact (gives_oneof decl.name decl).bind fun _ hnode => hnode
  | .enum decl => by
      rw [declaration, Declaration.givenNames]
      exact (gives_enum decl).bind fun _ hnode => hnode
  | .polymorph decl => by
      rw [declaration, Declaration.givenNames]
      exact (gives_polymorph decl).bind fun _ hnode => hnode

theorem gives_declarations {nest : List String} : (decls : List Declaration) → Gives file fatal
    (fun nodes => NoneBlank (Declaration.givenNamesList decls) ∧ NoneBlank (namesList nodes))
    (declarations file nest decls)
  | [] => ⟨Text.noneBlank_nil, Text.noneBlank_nil⟩
  | decl :: rest => by
      rw [declarations, Declaration.givenNamesList]
      refine (gives_declaration decl).bind ?_
      rintro _ ⟨hdecl, hnode⟩
      refine (gives_declarations rest).bind ?_
      rintro _ ⟨hrest, hnodes⟩
      exact ⟨Text.noneBlank_append.mpr ⟨hdecl, hrest⟩, Text.noneBlank_append.mpr ⟨hnode, hnodes⟩⟩

end

/-! ## Services and topics -/

theorem gives_payload {name : String} (hname : isBlank name = false) (span : Span)
    (props : List PropertyDecl) : Gives file fatal
      (fun node => NoneBlank (PropertyDecl.givenNamesList props) ∧ NoneBlank node.names)
      (payload file name span props) := by
  refine (gives_properties ..).bind ?_
  rintro _ ⟨hprops, hnames, hhoisted⟩
  refine ⟨hprops, ?_⟩
  rw [ObjectNode.names]
  simp [hname, hnames, hhoisted]

theorem gives_method (decl : MethodDecl) : Gives file fatal
    (fun node => NoneBlank decl.givenNames ∧ NoneBlank node.names) (method file decl) := by
  refine (gives_requireName ..).bind fun _ hname =>
    (gives_payload (Text.isBlank_append_of_right (by decide)) ..).bind ?_
  rintro _ ⟨hrequest, hrequestNames⟩
  refine (gives_payload (Text.isBlank_append_of_right (by decide)) ..).bind ?_
  rintro _ ⟨hresponse, hresponseNames⟩
  exact ⟨by simp [MethodDecl.givenNames, hname, hrequest, hresponse],
    by simp [MethodNode.names, hname, hrequestNames, hresponseNames]⟩

theorem gives_methods (decls : List MethodDecl) : Gives file fatal
    (fun nodes => NoneBlank (decls.flatMap MethodDecl.givenNames) ∧
      NoneBlank (nodes.flatMap MethodNode.names)) (decls.mapM (method file)) := by
  refine (Gives.mapM fun decl _ => gives_method decl).mono ?_
  rintro nodes ⟨hdecls, hnodes⟩
  rw [Text.noneBlank_flatMap, Text.noneBlank_flatMap]
  refine ⟨fun decl hdecl => ?_, fun node hnode => ?_⟩
  · obtain ⟨_, hgiven, -⟩ := hdecls decl hdecl
    exact hgiven
  · obtain ⟨_, -, -, hnames⟩ := hnodes node hnode
    exact hnames

theorem isBlank_of_nonBlank? {name : Option String} {given : String}
    (h : nonBlank? name = some given) : isBlank given = false := by
  obtain ⟨-, hblank⟩ := Option.filter_eq_some_iff.mp h
  exact Bool.not_eq_true' _ ▸ hblank

theorem gives_service (decl : ServiceDecl) : Gives file fatal
    (fun node => NoneBlank (decl.name.getD "" :: decl.methods.flatMap MethodDecl.givenNames) ∧
      NoneBlank (RootNode.service node).names) (service file decl) := by
  rw [service]
  split
  · exact gives_fault ..
  · rename_i name hgiven
    have hname := isBlank_of_nonBlank? hgiven
    obtain ⟨hdecl, -⟩ := Option.filter_eq_some_iff.mp hgiven
    refine (gives_methods decl.methods).bind ?_
    rintro _ ⟨hmethods, hnames⟩
    rw [hdecl]
    exact ⟨Text.noneBlank_cons.mpr ⟨hname, hmethods⟩, Text.noneBlank_cons.mpr ⟨hname, hnames⟩⟩

theorem gives_topicMessage (decl : TopicMessageDecl) : Gives file fatal
    (fun node => NoneBlank decl.givenNames ∧ NoneBlank node.names) (topicMessage file decl) := by
  refine (gives_requireName ..).bind fun _ hname =>
    (gives_payload (Text.isBlank_append_of_right (by decide)) ..).bind ?_
  rintro _ ⟨hprops, hnames⟩
  exact ⟨Text.noneBlank_cons.mpr ⟨hname, hprops⟩, Text.noneBlank_cons.mpr ⟨hname, hnames⟩⟩

theorem gives_topic (decl : TopicDecl) : Gives file fatal
    (fun node =>
      NoneBlank (decl.name :: (topicParts decl.kind).2.flatMap TopicMessageDecl.givenNames) ∧
      NoneBlank (RootNode.topic node).names) (topic file decl) := by
  refine (gives_requireName ..).bind fun _ hname => ?_
  dsimp only
  split
  · exact gives_fault ..
  · refine (Gives.mapM fun message _ => gives_topicMessage message).bind ?_
    rintro nodes ⟨hdecls, hnodes⟩
    rw [Text.noneBlank_cons, Text.noneBlank_flatMap]
    refine ⟨⟨hname, fun message hmessage => ?_⟩, Text.noneBlank_cons.mpr ⟨hname,
      Text.noneBlank_flatMap.mpr fun node hnode => ?_⟩⟩
    · obtain ⟨_, hgiven, -⟩ := hdecls message hmessage
      exact hgiven
    · obtain ⟨_, -, -, hnames⟩ := hnodes node hnode
      exact hnames

end Build

/-! ## Entities -/

/-- A default filter names none of the statuses. -/
def EntityDecl.HasStrayFilter (decl : EntityDecl) : Prop :=
  ∃ query, decl.query = some query ∧ ∃ filter ∈ query.defaultStatusFilter,
    Build.bareName (Entity.Names.ofDecl decl.name).statusPrefix filter ∉
      decl.status.map StatusDecl.name

/-- A blank name in a node is one of these, and the node is a topic of that name. -/
def RootNode.NamedBut (exempt : List String) (root : RootNode) : Prop :=
  ∀ name ∈ root.names, isBlank name = true →
    name ∈ exempt ∧ ∃ topic, root = .topic topic ∧ topic.head.name = name

theorem RootNode.NamedBut.of_noneBlank {exempt : List String} {root : RootNode}
    (h : NoneBlank root.names) : root.NamedBut exempt := by
  intro name hname hblank
  rw [h name hname] at hblank
  cases hblank

theorem RootNode.NamedBut.mono {exempt more : List String} {root : RootNode}
    (h : root.NamedBut exempt) (hmore : exempt ⊆ more) : root.NamedBut more := by
  intro name hname hblank
  obtain ⟨hexempt, htopic⟩ := h name hname hblank
  exact ⟨hmore hexempt, htopic⟩

namespace Entity

open Build

variable {file : String} {fatal : Prop} {decl : EntityDecl} {names : Names}

theorem isBlank_schema (names : Names) {ending : String} (h : isBlank ending = false) :
    isBlank (names.schema ending) = false :=
  Text.isBlank_append_of_right h

theorem gives_declaredPart (ending : String) (part : EntityPart) (properties : List PropertyDecl) :
    Gives file fatal
      (fun node => NoneBlank (PropertyDecl.givenNamesList properties) ∧ NoneBlank node.names)
      (declaredPart file decl names ending part properties) := by
  refine (gives_object _ _).bind ?_
  rintro node ⟨hdecl, hnode⟩
  rw [ObjectNode.names_eq] at hnode
  rw [gives_pure, ObjectNode.names_eq]
  rw [ObjectDecl.innerNames, Text.noneBlank_cons, Text.noneBlank_append] at hdecl
  exact ⟨hdecl.2.2, hnode⟩

theorem gives_keys : Gives file fatal
    (fun node => NoneBlank (PropertyDecl.givenNamesList decl.keys) ∧ NoneBlank node.names)
    (keys file decl names) :=
  gives_declaredPart ..

theorem gives_data : Gives file fatal
    (fun node => NoneBlank (PropertyDecl.givenNamesList decl.data) ∧ NoneBlank node.names)
    (data file decl names) :=
  gives_declaredPart ..

theorem gives_status : Gives file fatal
    (fun node => NoneBlank (decl.status.map StatusDecl.name) ∧ NoneBlank (SchemaNode.enum node).names)
    (status file decl names) := by
  refine (gives_enum _).bind ?_
  rintro node ⟨hdecl, hnode⟩
  rw [Text.noneBlank_cons, EnumDecl.optionNames, statusDecl, List.map_map] at hdecl
  exact ⟨hdecl.2, hnode⟩

theorem gives_generatedPart {ending : String} (hending : isBlank ending = false) (part : EntityPart)
    (description : Option String) (properties : List PropertyDecl) :
    Gives file fatal (fun node => NoneBlank node.names)
      (generatedPart file decl names ending part description properties) := by
  refine (gives_payload (isBlank_schema names hending) ..).bind ?_
  rintro node ⟨-, hnode⟩
  rw [ObjectNode.names_eq] at hnode
  rw [gives_pure, ObjectNode.names_eq]
  exact hnode

theorem gives_state (filters : List String) : Gives file fatal (fun node => NoneBlank node.names)
    (state file decl names filters) :=
  gives_generatedPart (by decide) ..

theorem gives_event : Gives file fatal (fun node => NoneBlank node.names) (event file decl names) :=
  gives_generatedPart (by decide) ..

theorem gives_branches (nest : List String) (place : Nat) (events : List EventDecl) : Gives file fatal
    (fun parts => NoneBlank (events.flatMap EventDecl.givenNames) ∧
      NoneBlank (SchemaNode.namesList (parts.map fun part => .object part.1)))
    (branches file nest place events) := by
  induction events generalizing place with
  | nil => exact ⟨Text.noneBlank_nil, Text.noneBlank_nil⟩
  | cons event rest ih =>
      rw [branches]
      refine (gives_object _ _).bind ?_
      rintro node ⟨hevent, hnode⟩
      refine (ih (place + 1)).bind ?_
      rintro others ⟨hrest, hothers⟩
      rw [ObjectDecl.innerNames, Text.noneBlank_cons, Text.noneBlank_append] at hevent
      refine ⟨?_, ?_⟩
      · simp [EventDecl.givenNames, Case.isBlank_of_upperCamel hevent.1, hevent.2.2, hrest]
      · exact Text.noneBlank_append.mpr ⟨hnode, hothers⟩

theorem gives_eventType : Gives file fatal
    (fun node => NoneBlank (decl.events.flatMap EventDecl.givenNames) ∧ NoneBlank node.names)
    (eventType file decl names) := by
  refine (gives_branches ..).bind ?_
  rintro parts ⟨hevents, hobjects⟩
  refine (gives_properties ..).bind ?_
  rintro _ ⟨-, hnames, hhoisted⟩
  refine ⟨hevents, ?_⟩
  have hname : isBlank (names.schema "EventType") = false := isBlank_schema names (by decide)
  rw [OneofNode.names, SchemaNode.namesList_append]
  simp [hname, hnames, hobjects, hhoisted]

theorem gives_queryMethod {name : String} (hname : isBlank name = false) (span : Span) (path : String)
    (kind : QueryKind) (request response : List PropertyDecl) : Gives file fatal
      (fun node => NoneBlank node.names)
      (queryMethod file span name path kind request response) := by
  refine (gives_payload (Text.isBlank_append_of_right (by decide)) ..).bind ?_
  rintro _ ⟨-, hrequest⟩
  refine (gives_payload (Text.isBlank_append_of_right (by decide)) ..).bind ?_
  rintro _ ⟨-, hresponse⟩
  rw [gives_pure]
  simp [MethodNode.names, hname, hrequest, hresponse]

theorem gives_queryService : Gives file fatal (fun node => NoneBlank (RootNode.service node).names)
    (queryService file decl names) := by
  refine (gives_queryMethod (isBlank_schema names (by decide)) ..).bind fun get hget => ?_
  refine (gives_queryMethod (isBlank_schema names (by decide)) ..).bind fun list hlist => ?_
  refine (gives_queryMethod (isBlank_schema names (by decide)) ..).bind fun events hevents => ?_
  have hname : isBlank (names.schema "Query") = false := isBlank_schema names (by decide)
  rw [gives_pure]
  simp [RootNode.names, hname, hget, hlist, hevents]

theorem gives_commandService (group : CommandGroup) : Gives file fatal
    (fun node => NoneBlank (group.methods.flatMap MethodDecl.givenNames) ∧
      NoneBlank (RootNode.service node).names) (commandService file decl names group) := by
  refine (gives_methods group.methods).bind ?_
  rintro _ ⟨hmethods, hnames⟩
  refine ⟨hmethods, Text.noneBlank_cons.mpr ⟨?_, hnames⟩⟩
  cases hgiven : nonBlank? group.name with
  | none => exact isBlank_schema names (by decide)
  | some name => exact isBlank_of_nonBlank? hgiven

theorem gives_publishTopic : Gives file fatal (fun node => NoneBlank (RootNode.topic node).names)
    (publishTopic file decl names) := by
  refine (gives_payload (Text.isBlank_append_of_right (by decide)) ..).bind ?_
  rintro _ ⟨-, hmessage⟩
  have htopic : isBlank (names.schema "Publish") = false := isBlank_schema names (by decide)
  have hname : isBlank (names.schema "Event") = false := isBlank_schema names (by decide)
  rw [gives_pure]
  simp [RootNode.names, TopicMessageNode.names, htopic, hname, hmessage]

/-- The name of a summary is the one name that is taken without a look at it. -/
theorem gives_summaryTopic (summary : SummaryDecl) : Gives file fatal
    (fun node => NoneBlank (PropertyDecl.givenNamesList summary.properties) ∧
      (RootNode.topic node).NamedBut [summary.name]) (summaryTopic file names summary) := by
  refine (gives_payload (Text.isBlank_append_of_right (by decide)) ..).bind ?_
  rintro message ⟨hprops, hmessage⟩
  rw [summaryProperties, PropertyDecl.givenNamesList, PropertyDecl.givenNamesList,
    Text.noneBlank_append, Text.noneBlank_append] at hprops
  refine ⟨hprops.2.2, fun name hname hblank => ?_⟩
  have hown : name = summary.name := by
    by_contra hother
    simp [RootNode.names, TopicMessageNode.names, hother] at hname
    rw [hmessage name hname] at hblank
    cases hblank
  exact ⟨List.mem_singleton.mpr hown, _, rfl, hown.symm⟩

theorem gives_check : Gives file fatal (fun _ => True) (check file decl names) := by
  rw [check]
  split
  · exact gives_fault ..
  · split
    · exact gives_fault ..
    · split
      · exact gives_fault ..
      · trivial

theorem gives_defaultFilters : Gives file decl.HasStrayFilter (fun _ => True)
    (defaultFilters file decl (.ofDecl decl.name)) := by
  unfold defaultFilters
  split
  · trivial
  · rename_i query hquery
    rcases statusFilters_cases file decl (.ofDecl decl.name) query query.defaultStatusFilter with
      ⟨-, hok⟩ | ⟨stray, hstray, hunknown, herror⟩
    · rw [hok]
      trivial
    · rw [herror]
      exact ⟨rfl, fun _ => ⟨query, hquery, stray, hstray, hunknown⟩⟩

section Expand

-- Each step would otherwise look into the parts that are still to be built.
attribute [local irreducible] Gives

theorem gives_expand : Gives file decl.HasStrayFilter
    (fun roots => NoneBlank decl.givenNames ∧
      ∀ root ∈ roots, root.NamedBut (decl.summaries.map SummaryDecl.name)) (expand file decl) := by
  rw [expand]
  refine (gives_requireName ..).bind fun _ hname => gives_check.bind fun _ _ =>
    gives_defaultFilters.bind fun filters _ => gives_keys.bind ?_
  rintro keys ⟨hkeys, hkeysNode⟩
  refine gives_data.bind ?_
  rintro data ⟨hdata, hdataNode⟩
  refine gives_status.bind ?_
  rintro status ⟨hstatus, hstatusNode⟩
  refine (gives_state filters).bind fun state hstateNode => gives_eventType.bind ?_
  rintro eventType ⟨hevents, heventTypeNode⟩
  refine gives_event.bind fun event heventNode => gives_queryService.bind fun query hqueryNode => ?_
  refine (Gives.mapM fun group _ => gives_commandService group).bind ?_
  rintro commands ⟨hcommands, hcommandNodes⟩
  refine gives_publishTopic.bind fun publish hpublishNode => ?_
  refine (Gives.mapM fun summary _ => gives_summaryTopic summary).bind ?_
  rintro summaries ⟨hsummaries, hsummaryNodes⟩
  refine (gives_declarations decl.schemas).bind ?_
  rintro schemas ⟨hschemas, hschemaNodes⟩
  rw [gives_pure]
  refine ⟨?_, ?_⟩
  · simp only [EntityDecl.givenNames, List.cons_append, Text.noneBlank_cons, Text.noneBlank_append,
      Text.noneBlank_flatMap]
    refine ⟨hname, ⟨⟨⟨⟨⟨hkeys, hdata⟩, hstatus⟩, Text.noneBlank_flatMap.mp hevents⟩,
      fun group hgroup => ?_⟩, fun summary hsummary => ?_⟩, hschemas⟩
    · obtain ⟨_, hmethods, -⟩ := hcommands group hgroup
      exact Text.noneBlank_flatMap.mp hmethods
    · obtain ⟨_, hprops, -⟩ := hsummaries summary hsummary
      exact hprops
  · have hnone : ∀ root : RootNode, root ∈ [] → root.NamedBut (decl.summaries.map SummaryDecl.name) :=
      fun _ h => absurd h List.not_mem_nil
    simp only [List.forall_mem_append, List.forall_mem_cons, List.forall_mem_map]
    refine ⟨⟨⟨⟨⟨.of_noneBlank hkeysNode, .of_noneBlank hdataNode, .of_noneBlank hstatusNode,
      .of_noneBlank hstateNode, .of_noneBlank heventTypeNode, .of_noneBlank heventNode,
      .of_noneBlank hqueryNode, hnone⟩, fun service hservice => ?_⟩, .of_noneBlank hpublishNode, hnone⟩,
      fun topic htopic => ?_⟩, fun schema hschema => .of_noneBlank ?_⟩
    · obtain ⟨_, -, -, hnames⟩ := hcommandNodes service hservice
      exact .of_noneBlank hnames
    · obtain ⟨summary, hsummary, -, hnamed⟩ := hsummaryNodes topic htopic
      exact hnamed.mono (List.forall_mem_singleton.mpr (List.mem_map_of_mem hsummary))
    · rw [SchemaNode.namesList_eq, Text.noneBlank_flatMap] at hschemaNodes
      exact hschemaNodes schema hschema

end Expand

end Entity

/-! ## Elements and documents -/

def Element.HasStrayFilter : Element → Prop
  | .entity decl => decl.HasStrayFilter
  | _ => False

def Element.summaryNames : Element → List String
  | .entity decl => decl.summaries.map SummaryDecl.name
  | _ => []

namespace Element

open Build

variable {file : String}

theorem gives_nodes (element : Element) : Gives file element.HasStrayFilter
    (fun roots => NoneBlank element.givenNames ∧ ∀ root ∈ roots, root.NamedBut element.summaryNames)
    (element.nodes file) := by
  cases element with
  | entity decl => exact Entity.gives_expand
  | object decl =>
      refine (gives_object decl.name decl).bind ?_
      rintro node ⟨hdecl, hnode⟩
      exact ⟨hdecl, List.forall_mem_singleton.mpr (.of_noneBlank hnode)⟩
  | oneof decl =>
      refine (gives_oneof decl.name decl).bind ?_
      rintro node ⟨hdecl, hnode⟩
      exact ⟨hdecl, List.forall_mem_singleton.mpr (.of_noneBlank hnode)⟩
  | enum decl =>
      refine (gives_enum decl).bind ?_
      rintro node ⟨hdecl, hnode⟩
      exact ⟨hdecl, List.forall_mem_singleton.mpr (.of_noneBlank hnode)⟩
  | polymorph decl =>
      refine (gives_polymorph decl).bind ?_
      rintro node ⟨hdecl, hnode⟩
      exact ⟨hdecl, List.forall_mem_singleton.mpr (.of_noneBlank hnode)⟩
  | service decl =>
      refine (gives_service decl).bind ?_
      rintro node ⟨hdecl, hnode⟩
      exact ⟨hdecl, List.forall_mem_singleton.mpr (.of_noneBlank hnode)⟩
  | topic decl =>
      refine (gives_topic decl).bind ?_
      rintro node ⟨hdecl, hnode⟩
      exact ⟨hdecl, List.forall_mem_singleton.mpr (.of_noneBlank hnode)⟩

end Element

/-- A schema at the top of its package has a name. -/
def RootNode.Named : RootNode → Prop
  | .schema node => node.head.name ≠ ""
  | _ => True

namespace Document

open Build

variable {d : Document}

theorem place_of_error {e : NodeError} (h : .error e ∈ d.outcomes) : e.place.file = d.path := by
  obtain ⟨element, -, helement⟩ := List.mem_map.mp h
  have hgives : Gives d.path _ _ (element.nodes d.path) := element.gives_nodes
  rw [helement] at hgives
  exact hgives.1

theorem exists_namedBut {root : RootNode} (h : root ∈ d.nodes) :
    ∃ element ∈ d.elements, root.NamedBut element.summaryNames := by
  obtain ⟨outcome, houtcome, hroot⟩ := List.mem_flatMap.mp h
  obtain ⟨element, helement, rfl⟩ := List.mem_map.mp houtcome
  have hgives : Gives d.path _ _ (element.nodes d.path) := element.gives_nodes
  cases hnodes : element.nodes d.path with
  | ok roots =>
      rw [hnodes] at hroot hgives
      exact ⟨element, helement, hgives.2 root hroot⟩
  | error e =>
      rw [hnodes] at hroot
      cases hroot

theorem nodes_named (d : Document) : ∀ root ∈ d.nodes, root.Named := by
  intro root hroot
  obtain ⟨element, -, hnamed⟩ := exists_namedBut hroot
  cases root with
  | schema node =>
      intro hempty
      obtain ⟨-, topic, htopic, -⟩ :=
        hnamed node.head.name node.name_mem_names (by rw [hempty]; rfl)
      cases htopic
  | service node => trivial
  | topic node => trivial

/-- No name in a node is blank unless it is the name of a summary, which its topic takes as it is.  All
other names that a declaration has to bring are asked for: where one is blank, the element is not built.
The error stands in the document's file, and costs the document only for the sake of a stray filter. -/
theorem nodes_bear_names (d : Document) :
    (∀ root ∈ d.nodes, ∃ element ∈ d.elements, root.NamedBut element.summaryNames) ∧
    ∀ element ∈ d.elements, (∃ name ∈ element.givenNames, isBlank name = true) →
      ∃ e ∈ d.nodeErrors, element.nodes d.path = .error e ∧ e.place.file = d.path ∧
        (e.isFatal = true → element.HasStrayFilter) := by
  refine ⟨fun root hroot => exists_namedBut hroot, fun element helement hmissing => ?_⟩
  obtain ⟨name, hname, hblank⟩ := hmissing
  have hgives : Gives d.path _ _ (element.nodes d.path) := element.gives_nodes
  have hmem : element.nodes d.path ∈ d.outcomes := List.mem_map_of_mem helement
  cases hnodes : element.nodes d.path with
  | ok roots =>
      rw [hnodes] at hgives
      rw [hgives.1 name hname] at hblank
      cases hblank
  | error e =>
      rw [hnodes] at hgives hmem
      exact ⟨e, List.mem_filterMap.mpr ⟨_, hmem, rfl⟩, rfl, hgives⟩

/-- An entity with a summary. -/
def orchard (summary : String) : Document where
  path := "orchard/v1/orchard.j5s"
  package := "orchard.v1"
  elements := [.entity
    { name := "Orchard"
      keys := [{ name := "orchardId", entityKey := some { primary := true }, schema := .key {} }]
      events := [{ name := "planted" }]
      summaries := [{ name := summary }] }]

/-- A summary without a name is accepted, and neither its topic nor the message of that has one. -/
theorem nodes_bear_blank_summary :
    (orchard "").nodeErrors = [] ∧ ∃ topic message, (orchard "").nodes[8]? = some (.topic topic) ∧
      topic.head.name = "" ∧ topic.messages = [message] ∧ message.name = "" :=
  ⟨rfl, _, _, rfl, rfl, rfl, rfl⟩

end Document

end Schematic
