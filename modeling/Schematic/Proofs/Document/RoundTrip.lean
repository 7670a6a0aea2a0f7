import Schematic.Document.Decode
import Schematic.Proofs.Json.Record

/-!
# Documents are read back as they were written

Every record is written with all its fields, and reading takes them back one by one.  Schemas nest:
what stands inside a schema is enclosed by fewer brackets than the schema, so it is read back with a
smaller limit.  The one thing that is lost in writing is a bound that is not finite.
-/

namespace Schematic

open Json Decode

/-! ## Bounds -/

def NumericRules.bounds {α : Type} (r : NumericRules α) : List α :=
  r.minimum.toList ++ r.maximum.toList

mutual

/-- The bounds of all floats in a schema. -/
def FieldSchema.bounds : FieldSchema → List Binary64
  | .float f => f.rules.bounds
  | .object (.inline decl) _ => decl.bounds
  | .oneof (.inline decl) => decl.bounds
  | .array items _ _ => items.bounds
  | .map items _ => items.bounds
  | _ => []

def PropertyDecl.bounds : PropertyDecl → List Binary64
  | { schema, .. } => schema.bounds

def propertiesBounds : List PropertyDecl → List Binary64
  | [] => []
  | p :: rest => p.bounds ++ propertiesBounds rest

def ObjectDecl.bounds : ObjectDecl → List Binary64
  | { properties, schemas, .. } => propertiesBounds properties ++ declarationsBounds schemas

def OneofDecl.bounds : OneofDecl → List Binary64
  | { properties, schemas, .. } => propertiesBounds properties ++ declarationsBounds schemas

def Declaration.bounds : Declaration → List Binary64
  | .object d => d.bounds
  | .oneof d => d.bounds
  | _ => []

def declarationsBounds : List Declaration → List Binary64
  | [] => []
  | d :: rest => d.bounds ++ declarationsBounds rest

end

def MethodDecl.bounds (d : MethodDecl) : List Binary64 :=
  propertiesBounds d.request ++ propertiesBounds d.response

def TopicKind.bounds : TopicKind → List Binary64
  | .publish messages => messages.flatMap fun m => propertiesBounds m.properties
  | .upsert message => propertiesBounds message.properties
  | .reqRes request reply => propertiesBounds request.properties ++ propertiesBounds reply.properties

def EntityDecl.bounds (d : EntityDecl) : List Binary64 :=
  propertiesBounds d.keys ++ propertiesBounds d.data ++
    d.events.flatMap (fun e => propertiesBounds e.properties) ++
    d.commands.flatMap (fun c => c.methods.flatMap MethodDecl.bounds) ++
    d.summaries.flatMap (fun s => propertiesBounds s.properties) ++ declarationsBounds d.schemas

def Element.bounds : Element → List Binary64
  | .object d => d.bounds
  | .oneof d => d.bounds
  | .enum _ | .polymorph _ => []
  | .entity d => d.bounds
  | .service d => d.methods.flatMap MethodDecl.bounds
  | .topic d => d.kind.bounds

/-- The bounds of all floats in a document. -/
def Document.bounds (d : Document) : List Binary64 :=
  d.elements.flatMap Element.bounds

def AllFinite (bounds : List Binary64) : Prop :=
  ∀ x ∈ bounds, x.isFinite = true

instance (bounds : List Binary64) : Decidable (AllFinite bounds) :=
  inferInstanceAs (Decidable (∀ x ∈ bounds, x.isFinite = true))

theorem allFinite_append {a b : List Binary64} : AllFinite (a ++ b) ↔ AllFinite a ∧ AllFinite b :=
  List.forall_mem_append

/-- With a limit of this size, values whose bounds are finite are read back. -/
def ReadsBack {α : Type} (limit : Nat) (bounds : α → List Binary64) (encode : α → Json)
    (item : Decoder α) : Prop :=
  ∀ a, AllFinite (bounds a) → (encode a).depth ≤ limit → item (encode a) = some a

theorem ReadsBack.list {α : Type} {limit : Nat} {bounds : α → List Binary64} {encode : α → Json}
    {item : Decoder α} (h : ReadsBack limit bounds encode item) {items : List α}
    (hfinite : AllFinite (items.flatMap bounds))
    (hdepth : (Json.array (items.map encode)).depth ≤ limit) :
    Json.list item (.array (items.map encode)) = some items := by
  refine list_map fun a ha => h a (fun x hx => ?_) ?_
  · exact hfinite x (List.mem_flatMap.mpr ⟨a, ha, hx⟩)
  · have hitem := depth_le_itemsDepth (List.mem_map_of_mem (f := encode) ha)
    simp only [depth] at hdepth
    omega

/-! ## Records without schemas -/

@[simp]
theorem Position.decode_encode (p : Position) : Position.fields.decode p.encode = some p :=
  Fields.Reads.decode
    { distinct := by simp
      read := by simp [fields] }

@[simp]
theorem Span.decode_encode (s : Span) : Span.fields.decode s.encode = some s :=
  Fields.Reads.decode
    { distinct := by simp
      read := by simp [fields] }

@[simp]
theorem RefName.decode_encode (r : RefName) : RefName.fields.decode r.encode = some r :=
  Fields.Reads.decode
    { distinct := by simp
      read := by simp [fields] }

@[simp]
theorem ListRules.decode_encode (r : ListRules) : ListRules.fields.decode r.encode = some r :=
  Fields.Reads.decode
    { distinct := by simp
      read := by simp [fields, off, texts] }

@[simp]
theorem Json.nullable_listRules (r : Option ListRules) :
    nullable ListRules.fields.decode (Encode.option ListRules.encode r) = some r :=
  nullable_option rfl fun r _ => r.decode_encode

theorem NumericRules.decode_encode {α : Type} {bound : Decoder α} {encode : α → Json}
    {r : NumericRules α} (hnull : bound .null = none)
    (h : ∀ a ∈ r.bounds, bound (encode a) = some a) :
    (NumericRules.fields bound).decode (r.encode encode) = some r := by
  have hminimum : nullable bound (Encode.option encode r.minimum) = some r.minimum :=
    nullable_option hnull fun a ha => h a (List.mem_append_left _ (by simpa using ha))
  have hmaximum : nullable bound (Encode.option encode r.maximum) = some r.maximum :=
    nullable_option hnull fun a ha => h a (List.mem_append_right _ (by simpa using ha))
  exact Fields.Reads.decode
    { distinct := by simp
      read := by simp [fields, hminimum, hmaximum] }

theorem StringField.reads (f : StringField) : StringField.fields.Reads f.record f where
  distinct := by simp [record, Encode.listRules]
  read := by simp [record, fields, Encode.listRules, size, listRulesField]

theorem IntegerField.reads (f : IntegerField) : IntegerField.fields.Reads f.record f where
  distinct := by simp [record, Encode.listRules]
  read := by
    have hformat : choice IntegerFormat.choices f.format.encode = some f.format := by
      cases f.format <;> decide
    have hrules := NumericRules.decode_encode rfl fun i (_ : i ∈ f.rules.bounds) => integer_int64 i
    simp [record, fields, Encode.listRules, listRulesField, hformat, hrules]

theorem FloatField.reads {f : FloatField} (h : AllFinite f.rules.bounds) :
    FloatField.fields.Reads f.record f where
  distinct := by simp [record, Encode.listRules]
  read := by
    have hformat : choice FloatFormat.choices f.format.encode = some f.format := by
      cases f.format <;> decide
    have hrules := NumericRules.decode_encode rfl fun x hx => real_real (h x hx)
    simp [record, fields, Encode.listRules, listRulesField, hformat, hrules]

theorem BoolField.reads (f : BoolField) : BoolField.fields.Reads f.record f where
  distinct := by simp [record, Encode.listRules]
  read := by simp [record, fields, Encode.listRules, listRulesField]

theorem BytesField.reads (f : BytesField) : BytesField.fields.Reads f.record f where
  distinct := by simp [record]
  read := by simp [record, fields, size]

@[simp]
theorem KeyFormat.decode_encode (f : KeyFormat) : KeyFormat.decode f.encode = some f := by
  cases f <;> rfl

theorem KeyField.reads (f : KeyField) : KeyField.fields.Reads f.record f where
  distinct := by simp [record, Encode.listRules]
  read := by simp [record, fields, Encode.listRules, listRulesField]

@[simp]
theorem EnumRules.decode_encode (r : EnumRules) : EnumRules.fields.decode r.encode = some r :=
  Fields.Reads.decode
    { distinct := by simp
      read := by simp [fields, texts, off] }

@[simp]
theorem ArrayRules.decode_encode (r : ArrayRules) : ArrayRules.fields.decode r.encode = some r :=
  Fields.Reads.decode
    { distinct := by simp
      read := by simp [fields, size, off] }

@[simp]
theorem MapRules.decode_encode (r : MapRules) : MapRules.fields.decode r.encode = some r :=
  Fields.Reads.decode
    { distinct := by simp
      read := by simp [fields, size] }

theorem AnyField.reads (f : AnyField) : AnyField.fields.Reads f.record f where
  distinct := by simp [record]
  read := by simp [record, fields, off, texts]

theorem EntityKey.decode_encode (k : EntityKey) : EntityKey.fields.decode k.encode = some k :=
  Fields.Reads.decode
    { distinct := by simp
      read := by simp [fields, off] }

theorem reads_listRules (r : Option ListRules) :
    listRulesField.Reads [Encode.listRules r] r where
  distinct := by simp
  read := by simp [listRulesField, Encode.listRules]

theorem EnumOption.decode_encode (o : EnumOption) : EnumOption.fields.decode o.encode = some o :=
  Fields.Reads.decode
    { distinct := by simp
      read := by simp [fields, nameField, descriptionField, spanField] }

theorem EnumDecl.reads (d : EnumDecl) : EnumDecl.fields.Reads d.record d where
  distinct := by simp [record]
  read := by
    have hoptions := list_map fun o (_ : o ∈ d.options) => o.decode_encode
    simp [record, fields, nameField, descriptionField, spanField, hoptions]

theorem PolymorphDecl.reads (d : PolymorphDecl) : PolymorphDecl.fields.Reads d.record d where
  distinct := by simp [record]
  read := by simp [record, fields, nameField, descriptionField, texts, spanField]

theorem SchemaRef.decode_named {α : Type} (decl : Decoder α) (name : RefName) :
    SchemaRef.decode decl (.object [("ref", name.encode)]) = some (.named name) := by
  rw [SchemaRef.decode, RefName.decode_encode, Option.map_some]

theorem SchemaRef.decode_inline {α : Type} {decl : Decoder α} {value : Json} {d : α}
    (h : decl value = some d) :
    SchemaRef.decode decl (.object [("inline", value)]) = some (.inline d) := by
  rw [SchemaRef.decode, h, Option.map_some]

theorem SchemaRef.decode_encode {α : Type} {decl : Decoder α} {encode : α → Json}
    (h : ∀ d, decl (encode d) = some d) (schema : SchemaRef α) :
    SchemaRef.decode decl (schema.encode encode) = some schema := by
  cases schema with
  | named name => exact decode_named decl name
  | inline d => exact decode_inline (h d)

/-! ## Schemas -/

theorem decodeSchema_of_tagged {s : FieldSchema}
    (h : ∀ limit, s.encode.depth ≤ limit + 1 →
      tagged true "type" (Document.inner limit).schemaKinds s.encode = some s) {limit : Nat}
    (hdepth : s.encode.depth ≤ limit) : decodeSchema limit s.encode = some s := by
  -- With a limit of zero nothing is read, but every schema is written with a bracket around it.
  cases limit with
  | zero => cases s using FieldSchema.encode.fun_cases <;> simp [FieldSchema.encode, depth] at hdepth
  | succ limit => exact h limit hdepth

theorem decodeDeclaration_of_tagged {d : Declaration}
    (h : ∀ limit, d.encode.depth ≤ limit + 1 →
      tagged true "element" (Document.inner limit).declarationKinds d.encode = some d) {limit : Nat}
    (hdepth : d.encode.depth ≤ limit) : decodeDeclaration limit d.encode = some d := by
  cases limit with
  | zero => cases d <;> simp [Declaration.encode, depth] at hdepth
  | succ limit => exact h limit hdepth

theorem PropertyDecl.decode_of_schema {limit : Nat} {p : PropertyDecl}
    (h : (Document.inner limit).schema p.schema.encode = some p.schema) :
    (Document.inner limit).property.decode p.encode = some p := by
  obtain ⟨name, description, required, optional, entityKey, number, schema, span⟩ := p
  have hkey : nullable EntityKey.fields.decode (Encode.option EntityKey.encode entityKey) =
      some entityKey := nullable_option rfl fun k _ => k.decode_encode
  have hnumber : nullable (integer int32?) (Encode.option (fun n => Encode.integer n.toInt) number) =
      some number := nullable_option rfl fun n _ => integer_int32 n
  rw [PropertyDecl.encode]
  exact Fields.Reads.decode
    { distinct := by simp
      read := by
        simp [Inner.property, nameField, descriptionField, off, spanField, hkey, hnumber, h] }

theorem ObjectDecl.keys_record (d : ObjectDecl) : d.record.map Prod.fst =
    ["name", "description", "properties", "schemas", "polymorph_member", "span"] := by
  cases d
  rfl

theorem OneofDecl.keys_record (d : OneofDecl) :
    d.record.map Prod.fst = ["name", "description", "properties", "schemas", "span"] := by
  cases d
  rfl

theorem ObjectDecl.reads_of_parts {limit : Nat} {d : ObjectDecl}
    (hproperties : list (Document.inner limit).property.decode (Encode.properties d.properties) =
      some d.properties)
    (hschemas : list (Document.inner limit).declaration (.array (encodeDeclarations d.schemas)) =
      some d.schemas) :
    (Document.inner limit).object.Reads d.record d := by
  obtain ⟨name, description, properties, schemas, polymorphMember, span⟩ := d
  rw [Encode.properties] at hproperties
  rw [ObjectDecl.record]
  exact
    { distinct := by simp
      read := by
        simp [Inner.object, Inner.properties, Inner.declarations, nameField, descriptionField, texts,
          spanField, hproperties, hschemas] }

theorem OneofDecl.reads_of_parts {limit : Nat} {d : OneofDecl}
    (hproperties : list (Document.inner limit).property.decode (Encode.properties d.properties) =
      some d.properties)
    (hschemas : list (Document.inner limit).declaration (.array (encodeDeclarations d.schemas)) =
      some d.schemas) :
    (Document.inner limit).oneof.Reads d.record d := by
  obtain ⟨name, description, properties, schemas, span⟩ := d
  rw [Encode.properties] at hproperties
  rw [OneofDecl.record]
  exact
    { distinct := by simp
      read := by
        simp [Inner.oneof, Inner.properties, Inner.declarations, nameField, descriptionField,
          spanField, hproperties, hschemas] }

-- The recursion is on the schema, not on the limit: a limit is consumed only where a schema or a
-- declaration begins, while properties and lists are read with the limit of what they stand in.
mutual

theorem tagged_schema : (s : FieldSchema) → (limit : Nat) → AllFinite s.bounds →
    s.encode.depth ≤ limit + 1 →
    tagged true "type" (Document.inner limit).schemaKinds s.encode = some s
  | .string f, limit, _, _ => by
      rw [FieldSchema.encode]
      exact (f.reads.map FieldSchema.string).tagged rfl
        (by simp [StringField.record, Encode.listRules])
  | .integer f, limit, _, _ => by
      rw [FieldSchema.encode]
      exact (f.reads.map FieldSchema.integer).tagged rfl
        (by simp [IntegerField.record, Encode.listRules])
  | .float f, limit, hfinite, _ => by
      rw [FieldSchema.bounds] at hfinite
      rw [FieldSchema.encode]
      exact ((FloatField.reads hfinite).map FieldSchema.float).tagged rfl
        (by simp [FloatField.record, Encode.listRules])
  | .decimal r, limit, _, _ => by
      rw [FieldSchema.encode]
      exact ((reads_listRules r).map FieldSchema.decimal).tagged rfl (by simp [Encode.listRules])
  | .date r, limit, _, _ => by
      rw [FieldSchema.encode]
      exact ((reads_listRules r).map FieldSchema.date).tagged rfl (by simp [Encode.listRules])
  | .timestamp r, limit, _, _ => by
      rw [FieldSchema.encode]
      exact ((reads_listRules r).map FieldSchema.timestamp).tagged rfl (by simp [Encode.listRules])
  | .bool f, limit, _, _ => by
      rw [FieldSchema.encode]
      exact (f.reads.map FieldSchema.bool).tagged rfl (by simp [BoolField.record, Encode.listRules])
  | .bytes f, limit, _, _ => by
      rw [FieldSchema.encode]
      exact (f.reads.map FieldSchema.bytes).tagged rfl (by simp [BytesField.record])
  | .key f, limit, _, _ => by
      rw [FieldSchema.encode]
      exact (f.reads.map FieldSchema.key).tagged rfl (by simp [KeyField.record, Encode.listRules])
  | .enum schema rules r, limit, _, _ => by
      have hschema := SchemaRef.decode_encode (fun d : EnumDecl => d.reads.decode) schema
      rw [FieldSchema.encode]
      exact Fields.Reads.tagged
        { distinct := by simp [Encode.listRules]
          read := by simp [Inner.schemaOf, Encode.listRules, listRulesField, hschema] }
        rfl (by simp [Encode.listRules])
  | .object (.named name) flatten, limit, _, _ => by
      rw [FieldSchema.encode]
      exact Fields.Reads.tagged
        { distinct := by simp
          read := by simp [Inner.schemaOf, off, SchemaRef.decode_named] }
        rfl (by simp)
  | .object (.inline decl) flatten, limit, hfinite, hdepth => by
      rw [FieldSchema.bounds] at hfinite
      simp only [FieldSchema.encode, depth, membersDepth] at hdepth
      have hschema := SchemaRef.decode_inline (reads_object decl limit hfinite (by omega)).decode
      rw [FieldSchema.encode]
      exact Fields.Reads.tagged
        { distinct := by simp
          read := by simp [Inner.schemaOf, off, hschema] }
        rfl (by simp)
  | .oneof (.named name), limit, _, _ => by
      rw [FieldSchema.encode]
      exact Fields.Reads.tagged
        { distinct := by simp
          read := by simp [Inner.schemaOf, SchemaRef.decode_named] }
        rfl (by simp)
  | .oneof (.inline decl), limit, hfinite, hdepth => by
      rw [FieldSchema.bounds] at hfinite
      simp only [FieldSchema.encode, depth, membersDepth] at hdepth
      have hschema := SchemaRef.decode_inline (reads_oneof decl limit hfinite (by omega)).decode
      rw [FieldSchema.encode]
      exact Fields.Reads.tagged
        { distinct := by simp
          read := by simp [Inner.schemaOf, hschema] }
        rfl (by simp)
  | .polymorph schema, limit, _, _ => by
      have hschema := SchemaRef.decode_encode (fun d : PolymorphDecl => d.reads.decode) schema
      rw [FieldSchema.encode]
      exact Fields.Reads.tagged
        { distinct := by simp
          read := by simp [Inner.schemaOf, hschema] }
        rfl (by simp)
  | .array items rules singleForm, limit, hfinite, hdepth => by
      rw [FieldSchema.bounds] at hfinite
      simp only [FieldSchema.encode, depth, membersDepth] at hdepth
      have hitems : decodeSchema limit items.encode = some items :=
        decodeSchema_of_tagged (fun n => tagged_schema items n hfinite) (by omega)
      rw [FieldSchema.encode]
      exact Fields.Reads.tagged
        { distinct := by simp
          read := by simp [Document.inner, hitems] }
        rfl (by simp)
  | .map items rules, limit, hfinite, hdepth => by
      rw [FieldSchema.bounds] at hfinite
      simp only [FieldSchema.encode, depth, membersDepth] at hdepth
      have hitems : decodeSchema limit items.encode = some items :=
        decodeSchema_of_tagged (fun n => tagged_schema items n hfinite) (by omega)
      rw [FieldSchema.encode]
      exact Fields.Reads.tagged
        { distinct := by simp
          read := by simp [Document.inner, hitems] }
        rfl (by simp)
  | .any f, limit, _, _ => by
      rw [FieldSchema.encode]
      exact (f.reads.map FieldSchema.any).tagged rfl (by simp [AnyField.record])

theorem decode_property : (p : PropertyDecl) → (limit : Nat) → AllFinite p.bounds →
    p.encode.depth ≤ limit → (Document.inner limit).property.decode p.encode = some p
  | ⟨name, description, required, optional, entityKey, n, schema, span⟩, limit, hfinite, hdepth => by
      rw [PropertyDecl.bounds] at hfinite
      simp only [PropertyDecl.encode, depth, membersDepth] at hdepth
      exact PropertyDecl.decode_of_schema
        (decodeSchema_of_tagged (fun n => tagged_schema schema n hfinite) (by omega))

theorem decodeAll_properties : (ps : List PropertyDecl) → (limit : Nat) →
    AllFinite (propertiesBounds ps) → itemsDepth (encodeProperties ps) ≤ limit →
    decodeAll (Document.inner limit).property.decode (encodeProperties ps) = some ps
  | [], limit, _, _ => rfl
  | p :: rest, limit, hfinite, hdepth => by
      rw [propertiesBounds, allFinite_append] at hfinite
      simp only [encodeProperties, itemsDepth] at hdepth
      have hfirst := decode_property p limit hfinite.1 (by omega)
      have hrest := decodeAll_properties rest limit hfinite.2 (by omega)
      simp [encodeProperties, decodeAll, hfirst, hrest]

theorem reads_object : (d : ObjectDecl) → (limit : Nat) → AllFinite d.bounds →
    membersDepth d.record ≤ limit → (Document.inner limit).object.Reads d.record d
  | { name, description, properties, schemas, polymorphMember, span }, limit, hfinite, hdepth => by
      rw [ObjectDecl.bounds, allFinite_append] at hfinite
      simp only [ObjectDecl.record, depth, membersDepth] at hdepth
      exact ObjectDecl.reads_of_parts (decodeAll_properties properties limit hfinite.1 (by omega))
        (decodeAll_declarations schemas limit hfinite.2 (by omega))

theorem reads_oneof : (d : OneofDecl) → (limit : Nat) → AllFinite d.bounds →
    membersDepth d.record ≤ limit → (Document.inner limit).oneof.Reads d.record d
  | { name, description, properties, schemas, span }, limit, hfinite, hdepth => by
      rw [OneofDecl.bounds, allFinite_append] at hfinite
      simp only [OneofDecl.record, depth, membersDepth] at hdepth
      exact OneofDecl.reads_of_parts (decodeAll_properties properties limit hfinite.1 (by omega))
        (decodeAll_declarations schemas limit hfinite.2 (by omega))

theorem tagged_declaration : (d : Declaration) → (limit : Nat) → AllFinite d.bounds →
    d.encode.depth ≤ limit + 1 →
    tagged true "element" (Document.inner limit).declarationKinds d.encode = some d
  | .object d, limit, hfinite, hdepth => by
      rw [Declaration.bounds] at hfinite
      simp only [Declaration.encode, depth, membersDepth] at hdepth
      have hreads := reads_object d limit hfinite (by omega)
      rw [Declaration.encode]
      exact (hreads.map Declaration.object).tagged rfl (by simp [ObjectDecl.keys_record])
  | .oneof d, limit, hfinite, hdepth => by
      rw [Declaration.bounds] at hfinite
      simp only [Declaration.encode, depth, membersDepth] at hdepth
      have hreads := reads_oneof d limit hfinite (by omega)
      rw [Declaration.encode]
      exact (hreads.map Declaration.oneof).tagged rfl (by simp [OneofDecl.keys_record])
  | .enum d, limit, _, _ => by
      rw [Declaration.encode]
      exact (d.reads.map Declaration.enum).tagged rfl (by simp [EnumDecl.record])
  | .polymorph d, limit, _, _ => by
      rw [Declaration.encode]
      exact (d.reads.map Declaration.polymorph).tagged rfl (by simp [PolymorphDecl.record])

theorem decodeAll_declarations : (ds : List Declaration) → (limit : Nat) →
    AllFinite (declarationsBounds ds) → itemsDepth (encodeDeclarations ds) ≤ limit →
    decodeAll (decodeDeclaration limit) (encodeDeclarations ds) = some ds
  | [], limit, _, _ => rfl
  | d :: rest, limit, hfinite, hdepth => by
      rw [declarationsBounds, allFinite_append] at hfinite
      simp only [encodeDeclarations, itemsDepth] at hdepth
      have hfirst : decodeDeclaration limit d.encode = some d :=
        decodeDeclaration_of_tagged (fun n => tagged_declaration d n hfinite.1) (by omega)
      have hrest := decodeAll_declarations rest limit hfinite.2 (by omega)
      simp [encodeDeclarations, decodeAll, hfirst, hrest]

end

/-! ## Elements -/

section Elements

variable (limit : Nat)

theorem readsBack_properties :
    ReadsBack limit propertiesBounds Encode.properties
      (list (Document.inner limit).property.decode) := by
  intro ps hfinite hdepth
  simp only [Encode.properties, depth] at hdepth
  exact decodeAll_properties ps limit hfinite (by omega)

theorem decode_declarations {ds : List Declaration} (hfinite : AllFinite (declarationsBounds ds))
    (hdepth : (Json.array (encodeDeclarations ds)).depth ≤ limit) :
    list (Document.inner limit).declaration (.array (encodeDeclarations ds)) = some ds := by
  simp only [depth] at hdepth
  exact decodeAll_declarations ds limit hfinite (by omega)

theorem readsBack_method :
    ReadsBack limit MethodDecl.bounds MethodDecl.encode (Document.inner limit).method.decode := by
  intro d hfinite hdepth
  rw [MethodDecl.bounds, allFinite_append] at hfinite
  simp only [MethodDecl.encode, depth, membersDepth] at hdepth
  have hverb : choice [("GET", .get), ("POST", .post), ("PUT", .put), ("PATCH", .patch),
      ("DELETE", .delete)] d.httpMethod.encode = some d.httpMethod := by
    cases d.httpMethod <;> decide
  have hrequest := readsBack_properties limit d.request hfinite.1 (by omega)
  have hresponse := readsBack_properties limit d.response hfinite.2 (by omega)
  exact Fields.Reads.decode
    { distinct := by simp
      read := by
        simp [Inner.method, Inner.properties, nameField, descriptionField, spanField, hverb, hrequest,
          hresponse] }

theorem readsBack_methods :
    ReadsBack limit (fun ms => ms.flatMap MethodDecl.bounds) Encode.methods
      (list (Document.inner limit).method.decode) :=
  fun _ hfinite hdepth => (readsBack_method limit).list hfinite hdepth

theorem reads_service (d : ServiceDecl) (hfinite : AllFinite (d.methods.flatMap MethodDecl.bounds))
    (hdepth : membersDepth d.record ≤ limit) : (Document.inner limit).service.Reads d.record d := by
  simp only [ServiceDecl.record, membersDepth] at hdepth
  have hmethods := readsBack_methods limit d.methods hfinite (by omega)
  exact
    { distinct := by simp [ServiceDecl.record]
      read := by
        simp [ServiceDecl.record, Inner.service, Inner.methods, descriptionField, spanField, hmethods] }

theorem readsBack_topicMessage :
    ReadsBack limit (fun d => propertiesBounds d.properties) TopicMessageDecl.encode
      (Document.inner limit).topicMessage.decode := by
  intro d hfinite hdepth
  simp only [TopicMessageDecl.encode, depth, membersDepth] at hdepth
  have hproperties := readsBack_properties limit d.properties hfinite (by omega)
  exact Fields.Reads.decode
    { distinct := by simp
      read := by
        simp [Inner.topicMessage, Inner.properties, nameField, descriptionField, spanField,
          hproperties] }

theorem readsBack_topicKind :
    ReadsBack limit TopicKind.bounds TopicKind.encode (Document.inner limit).topicKind := by
  intro kind hfinite hdepth
  cases kind with
  | publish messages =>
      simp only [TopicKind.encode, depth, membersDepth] at hdepth
      have hmessages := (readsBack_topicMessage limit).list hfinite (by simp only [depth]; omega)
      exact Fields.Reads.tagged
        { distinct := by simp
          read := by simp [hmessages] }
        rfl (by simp)
  | upsert message =>
      simp only [TopicKind.encode, depth, membersDepth] at hdepth
      have hmessage := readsBack_topicMessage limit message hfinite (by omega)
      exact Fields.Reads.tagged
        { distinct := by simp
          read := by simp [hmessage] }
        rfl (by simp)
  | reqRes request reply =>
      rw [TopicKind.bounds, allFinite_append] at hfinite
      simp only [TopicKind.encode, depth, membersDepth] at hdepth
      have hrequest := readsBack_topicMessage limit request hfinite.1 (by omega)
      have hreply := readsBack_topicMessage limit reply hfinite.2 (by omega)
      exact Fields.Reads.tagged
        { distinct := by simp
          read := by simp [hrequest, hreply] }
        rfl (by simp)

theorem reads_topic (d : TopicDecl) (hfinite : AllFinite d.kind.bounds)
    (hdepth : membersDepth d.record ≤ limit) : (Document.inner limit).topic.Reads d.record d := by
  simp only [TopicDecl.record, membersDepth] at hdepth
  have hkind := readsBack_topicKind limit d.kind hfinite (by omega)
  exact
    { distinct := by simp [TopicDecl.record]
      read := by simp [TopicDecl.record, Inner.topic, nameField, descriptionField, spanField, hkind] }

theorem StatusDecl.decode_encode (d : StatusDecl) : Inner.status.decode d.encode = some d :=
  Fields.Reads.decode
    { distinct := by simp
      read := by simp [Inner.status, nameField, descriptionField, spanField] }

theorem readsBack_event :
    ReadsBack limit (fun d => propertiesBounds d.properties) EventDecl.encode
      (Document.inner limit).event.decode := by
  intro d hfinite hdepth
  simp only [EventDecl.encode, depth, membersDepth] at hdepth
  have hproperties := readsBack_properties limit d.properties hfinite (by omega)
  exact Fields.Reads.decode
    { distinct := by simp
      read := by
        simp [Inner.event, Inner.properties, nameField, descriptionField, spanField, hproperties] }

theorem readsBack_commandGroup :
    ReadsBack limit (fun d => d.methods.flatMap MethodDecl.bounds) CommandGroup.encode
      (Document.inner limit).commandGroup.decode := by
  intro d hfinite hdepth
  simp only [CommandGroup.encode, depth, membersDepth] at hdepth
  have hmethods := readsBack_methods limit d.methods hfinite (by omega)
  exact Fields.Reads.decode
    { distinct := by simp
      read := by simp [Inner.commandGroup, Inner.methods, descriptionField, spanField, hmethods] }

theorem readsBack_summary :
    ReadsBack limit (fun d => propertiesBounds d.properties) SummaryDecl.encode
      (Document.inner limit).summary.decode := by
  intro d hfinite hdepth
  simp only [SummaryDecl.encode, depth, membersDepth] at hdepth
  have hproperties := readsBack_properties limit d.properties hfinite (by omega)
  exact Fields.Reads.decode
    { distinct := by simp
      read := by
        simp [Inner.summary, Inner.properties, nameField, descriptionField, spanField, hproperties] }

theorem EntityQuery.decode_encode (q : EntityQuery) : Inner.query.decode q.encode = some q :=
  Fields.Reads.decode
    { distinct := by simp
      read := by simp [Inner.query, texts, off, spanField] }

theorem reads_entity (d : EntityDecl) (hfinite : AllFinite d.bounds)
    (hdepth : membersDepth d.record ≤ limit) : (Document.inner limit).entity.Reads d.record d := by
  simp only [EntityDecl.bounds, allFinite_append] at hfinite
  obtain ⟨⟨⟨⟨⟨fkeys, fdata⟩, fevents⟩, fcommands⟩, fsummaries⟩, fschemas⟩ := hfinite
  -- One bound for each of the twelve members; as a nested maximum they are too many to split.
  simp only [EntityDecl.record, membersDepth, Nat.max_le] at hdepth
  obtain ⟨-, -, -, dkeys, ddata, -, devents, dcommands, dsummaries, -, dschemas, -⟩ := hdepth
  have hkeys := readsBack_properties limit d.keys fkeys dkeys
  have hdata := readsBack_properties limit d.data fdata ddata
  have hstatus := list_map fun s (_ : s ∈ d.status) => s.decode_encode
  have hevents := (readsBack_event limit).list fevents devents
  have hcommands := (readsBack_commandGroup limit).list fcommands dcommands
  have hsummaries := (readsBack_summary limit).list fsummaries dsummaries
  have hquery : nullable Inner.query.decode (Encode.option EntityQuery.encode d.query) =
      some d.query := nullable_option rfl fun q _ => q.decode_encode
  have hschemas := decode_declarations limit fschemas dschemas
  exact
    { distinct := by simp [EntityDecl.record]
      read := by
        simp [EntityDecl.record, Inner.entity, Inner.properties, Inner.declarations, nameField,
          descriptionField, spanField, hkeys, hdata, hstatus, hevents, hcommands, hsummaries, hquery,
          hschemas] }

theorem readsBack_element :
    ReadsBack limit Element.bounds Element.encode (Document.inner limit).element := by
  intro e hfinite hdepth
  cases e with
  | object d =>
      simp only [Element.encode, depth, membersDepth] at hdepth
      have hreads := reads_object d limit hfinite (by omega)
      exact (hreads.map Element.object).tagged rfl (by simp [ObjectDecl.keys_record])
  | oneof d =>
      simp only [Element.encode, depth, membersDepth] at hdepth
      have hreads := reads_oneof d limit hfinite (by omega)
      exact (hreads.map Element.oneof).tagged rfl (by simp [OneofDecl.keys_record])
  | enum d => exact (d.reads.map Element.enum).tagged rfl (by simp [EnumDecl.record])
  | polymorph d => exact (d.reads.map Element.polymorph).tagged rfl (by simp [PolymorphDecl.record])
  | entity d =>
      simp only [Element.encode, depth, membersDepth] at hdepth
      have hreads := reads_entity limit d hfinite (by omega)
      exact (hreads.map Element.entity).tagged rfl (by simp [EntityDecl.record])
  | service d =>
      simp only [Element.encode, depth, membersDepth] at hdepth
      have hreads := reads_service limit d hfinite (by omega)
      exact (hreads.map Element.service).tagged rfl (by simp [ServiceDecl.record])
  | topic d =>
      simp only [Element.encode, depth, membersDepth] at hdepth
      have hreads := reads_topic limit d hfinite (by omega)
      exact (hreads.map Element.topic).tagged rfl (by simp [TopicDecl.record])

end Elements

/-! ## Documents -/

theorem Import.decode_encode (i : Import) : Import.fields.decode i.encode = some i :=
  Fields.Reads.decode
    { distinct := by simp
      read := by simp [fields, spanField] }

theorem readsBack_document (limit : Nat) :
    ReadsBack limit Document.bounds Document.encode (Document.ofJson limit) := by
  intro d hfinite hdepth
  simp only [Document.encode, depth, membersDepth] at hdepth
  have himports := list_map fun i (_ : i ∈ d.imports) => i.decode_encode
  have helements := (readsBack_element limit).list hfinite (by simp only [depth]; omega)
  exact Fields.Reads.decode
    { distinct := by simp
      read := by simp [Document.fields, himports, helements] }

namespace Document

/-- A document whose bounds are finite is read back as it was written, with every limit that does not
cut its nesting off. -/
theorem ofJson_encode (d : Document) (hfinite : AllFinite d.bounds) :
    (∀ limit, d.encode.depth ≤ limit → ofJson limit d.encode = some d) ∧
    (d.encode.depth ≤ nestingLimit → ofValue? d.encode = some d) := by
  refine ⟨fun limit hdepth => readsBack_document limit d hfinite hdepth, fun hdepth => ?_⟩
  rw [ofValue?, if_neg (Nat.not_lt.mpr hdepth)]
  exact readsBack_document nestingLimit d hfinite hdepth

/-- A oneof declared in place inside a map inside an array, with a bound of negative zero. -/
def weight : PropertyDecl :=
  { name := "weight", required := true, number := some (-3), entityKey := some { shard := true }
    schema := .array (.map (.oneof (.inline
      { name := "Weight"
        properties :=
          [{ name := "kilograms", description := some ""
             schema := .float
              { format := .float32
                rules := { minimum := some ⟨0x8000000000000000⟩, exclusiveMinimum := some false } } },
            { name := "unit", schema := .enum (.named { package := some "", schema := "Unit" })
                { allowed := ["KG"], definedOnly := true } (some { sortable := true }) },
            { name := "code", schema := .key { format := .custom "[a-z]+" } }]
        schemas := [.enum { name := "Unit", options := [{ name := "KG" }] }, .oneof { name := "" }] }))
      { minPairs := some 18446744073709551615 }) { uniqueItems := true } (some "weight") }

/-- A document with an element of every kind that has properties. -/
def warehouse : Document :=
  { path := "store/v1/store.j5s", package := "store.v1"
    imports := [{ package := some "unit.v1", localName := some "unit", span := Span.at 4294967295 1 }]
    elements :=
      [.object { name := "Crate", properties := [weight], polymorphMember := ["store.v1.Thing"] },
        .entity
          { name := "Shelf", keys := [weight], status := [{ name := "EMPTY" }]
            events := [{ name := "Fill", properties := [weight] }]
            commands := [{ methods := [{ name := "Move", httpMethod := .patch, request := [weight] }] }]
            query := some { defaultStatusFilter := ["EMPTY"] }
            schemas := [.polymorph { name := "Thing", members := ["store.v1.Crate"] }] },
        .service { methods := [{ name := "List", response := [weight] }] },
        .topic
          { name := "Move", kind := .reqRes { name := "", properties := [weight] } { name := "R" } }] }

theorem ofJson_encode_warehouse :
    AllFinite warehouse.bounds ∧ warehouse.bounds.length = 6 ∧ warehouse.encode.depth = 20 ∧
    (∀ limit, warehouse.encode.depth ≤ limit → ofJson limit warehouse.encode = some warehouse) ∧
    (warehouse.encode.depth ≤ nestingLimit → ofValue? warehouse.encode = some warehouse) := by
  have hfinite : AllFinite warehouse.bounds := by decide +kernel
  exact ⟨hfinite, by decide +kernel, by decide +kernel, ofJson_encode warehouse hfinite⟩

end Document
end Schematic
