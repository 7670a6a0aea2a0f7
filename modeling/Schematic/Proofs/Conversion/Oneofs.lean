import Schematic.Proofs.Conversion.Messages

/-!
# Oneofs of converted messages

A property that is explicitly optional and whose field is no message has a oneof of its own, which
holds nothing else.  The branches of a oneof share the oneof `type`.  No other field belongs to a
oneof.  A field that does is singular, unless a branch was declared as an array or a map.
-/

namespace Schematic

/-! ## Messages and their oneofs -/

/-- The properties of an object in turn, each with its field, and the oneofs of their own, the first
of which is number `next`. -/
inductive PropertyNode.Lowered :
    Nat → List PropertyNode → List FieldDescriptor → List OneofDescriptor → Prop
  | nil {next : Nat} : Lowered next [] [] []
  | optional {next : Nat} {p : PropertyNode} {ps : List PropertyNode} {f : FieldDescriptor}
      {fs : List FieldDescriptor} {os : List OneofDescriptor} (shown : p.ShownBy f)
      (optional : p.optional = true) (type : f.type ≠ some FieldType.message)
      (marked : f.proto3Optional = some true) (index : f.oneofIndex = some (next : Int))
      (rest : Lowered (next + 1) ps fs os) :
      Lowered next (p :: ps) (f :: fs) ({ name := some ("_" ++ f.nameText) } :: os)
  | plain {next : Nat} {p : PropertyNode} {ps : List PropertyNode} {f : FieldDescriptor}
      {fs : List FieldDescriptor} {os : List OneofDescriptor} (shown : p.ShownBy f)
      (plain : p.optional = false ∨ f.type = some FieldType.message)
      (unmarked : f.proto3Optional = none) (index : f.oneofIndex = none)
      (rest : Lowered next ps fs os) : Lowered next (p :: ps) (f :: fs) os

namespace MessageDescriptor

structure Oneofless (m : MessageDescriptor) : Prop where
  oneofs : m.oneofs = []
  fields : ∀ f ∈ m.fields, f.oneofIndex = none ∧ f.proto3Optional = none

/-- The fields that belong to oneof number `n`. -/
def oneofMembers (m : MessageDescriptor) (n : Nat) : List FieldDescriptor :=
  m.fields.filter fun f => f.oneofIndex = some (n : Int)

/-- Every field that names a oneof names one that is there.  A oneof is that of a single optional
field, or it is the only one and has all fields. -/
structure OneofsFit (m : MessageDescriptor) : Prop where
  inRange : ∀ f ∈ m.fields, ∀ i, f.oneofIndex = some i → ∃ n < m.oneofs.length, i = (n : Int)
  members : ∀ n o, m.oneofs[n]? = some o →
    (∃ f, m.oneofMembers n = [f] ∧ f.proto3Optional = some true ∧
      o.name = some ("_" ++ f.nameText)) ∨
    (m.oneofMembers n = m.fields ∧ m.oneofs = [o] ∧ o.name = some "type" ∧
      ∀ f ∈ m.fields, f.proto3Optional = none)

end MessageDescriptor

/-- The oneofs of a message are those of the schema it is made from. -/
inductive SchemaNode.Grouped : SchemaNode → MessageDescriptor → Prop
  | object {node : ObjectNode} {m : MessageDescriptor}
      (lowered : PropertyNode.Lowered 0 node.properties m.fields m.oneofs) : Grouped (.object node) m
  | oneof {node : OneofNode} {m : MessageDescriptor}
      (fields : List.Forall₂ PropertyNode.ShownBy node.properties m.fields)
      (oneofs : m.oneofs = [{ name := some "type" }])
      (members : ∀ f ∈ m.fields, f.oneofIndex = some 0 ∧ f.proto3Optional = none) :
      Grouped (.oneof node) m
  | polymorph {node : PolymorphNode} {m : MessageDescriptor} (none : m.Oneofless) :
      Grouped (.polymorph node) m

/-- The messages of a file stand for its schemas, and those of maps' entries have no oneofs. -/
def FileNodes.Grouped (nodes : FileNodes) (f : FileDescriptor) : Prop :=
  List.Forall₂ (fun node placed => placed.1 = node.head.childNest ∧ node.Grouped placed.2 ∧
    ∀ entry ∈ placed.2.mapEntries, entry.Oneofless) nodes.schemas f.placedMessages

/-! ## Oneofs of single fields -/

namespace PropertyNode.Lowered

variable {next : Nat} {ps : List PropertyNode} {fs : List FieldDescriptor} {os : List OneofDescriptor}

theorem inRange (h : Lowered next ps fs os) : ∀ f ∈ fs, ∀ i, f.oneofIndex = some i →
    ∃ n, next ≤ n ∧ n < next + os.length ∧ i = (n : Int) := by
  induction h with
  | nil => exact fun f hf => absurd hf List.not_mem_nil
  | @optional next p ps f fs os _ _ _ _ hindex _ ih =>
      intro g hg i hi
      rw [List.length_cons]
      rcases List.mem_cons.mp hg with rfl | hg
      · exact ⟨next, Nat.le_refl _, by omega, Option.some.inj (hi.symm.trans hindex)⟩
      · obtain ⟨n, hle, hlt, hn⟩ := ih g hg i hi
        exact ⟨n, by omega, by omega, hn⟩
  | plain _ _ _ hindex _ ih =>
      intro g hg i hi
      rcases List.mem_cons.mp hg with rfl | hg
      · rw [hindex] at hi
        cases hi
      · exact ih g hg i hi

/-- Each oneof has the field that it was made for and no other. -/
theorem members (h : Lowered next ps fs os) {n : Nat} {o : OneofDescriptor} (ho : os[n]? = some o) :
    ∃ f, (fs.filter fun f => f.oneofIndex = some ((next + n : Nat) : Int)) = [f] ∧
      f.proto3Optional = some true ∧ o.name = some ("_" ++ f.nameText) := by
  induction h generalizing n with
  | nil => cases ho
  | @optional next p ps f fs os _ _ _ hmarked hindex hrest ih =>
      cases n with
      | zero =>
          cases ho
          refine ⟨f, ?_, hmarked, rfl⟩
          -- The fields behind it have oneofs behind its own.
          have hnone : (fs.filter fun f => f.oneofIndex = some ((next + 0 : Nat) : Int)) = [] := by
            refine List.filter_eq_nil_iff.mpr fun g hg hi => ?_
            obtain ⟨k, hle, -, hk⟩ := hrest.inRange g hg _ (of_decide_eq_true hi)
            omega
          rw [List.filter_cons_of_pos (by rw [hindex]; exact decide_eq_true rfl), hnone]
      | succ n =>
          have hne : f.oneofIndex ≠ some ((next + (n + 1) : Nat) : Int) := by
            rw [hindex]
            intro heq
            have := Option.some.inj heq
            omega
          rw [List.filter_cons_of_neg (by simpa using hne),
            show next + (n + 1) = next + 1 + n by omega]
          exact ih ho
  | @plain next p ps f fs os _ _ _ hindex _ ih =>
      rw [List.filter_cons_of_neg (by rw [hindex]; simp)]
      exact ih ho

end PropertyNode.Lowered

theorem MessageDescriptor.Oneofless.oneofsFit {m : MessageDescriptor} (h : m.Oneofless) :
    m.OneofsFit where
  inRange f hf i hi := by
    rw [(h.fields f hf).1] at hi
    cases hi
  members n o ho := by
    rw [h.oneofs] at ho
    cases ho

namespace SchemaNode.Grouped

variable {node : SchemaNode} {m : MessageDescriptor}

theorem oneofsFit (h : node.Grouped m) : m.OneofsFit := by
  cases h with
  | object lowered =>
      refine ⟨fun f hf i hi => ?_, fun n o ho => Or.inl ?_⟩
      · obtain ⟨n, -, hlt, hn⟩ := lowered.inRange f hf i hi
        exact ⟨n, by omega, hn⟩
      · have hmembers := lowered.members ho
        rwa [Nat.zero_add] at hmembers
  | oneof _ oneofs members =>
      refine ⟨fun f hf i hi => ?_, fun n o ho => Or.inr ?_⟩
      · refine ⟨0, by rw [oneofs]; exact Nat.zero_lt_one, ?_⟩
        rw [(members f hf).1] at hi
        exact (Option.some.inj hi).symm
      · rw [oneofs] at ho ⊢
        obtain ⟨rfl, rfl⟩ : n = 0 ∧ o = { name := some "type" } := by
          cases n with
          | zero => exact ⟨rfl, (Option.some.inj ho).symm⟩
          | succ n => cases ho
        refine ⟨List.filter_eq_self.mpr fun f hf => ?_, rfl, rfl, fun f hf => (members f hf).2⟩
        exact decide_eq_true (members f hf).1
  | polymorph none => exact none.oneofsFit

end SchemaNode.Grouped

/-! ## Messages of schemas -/

namespace Conversion

variable {c : Conversion} {message : String} {ps : List PropertyNode} {parts : List FieldPart}

theorem lowered_of_yields (h : List.Forall₂ (c.Yields message none) ps parts) (next : Nat) :
    PropertyNode.Lowered next ps (FieldPart.fieldsFrom next parts) (FieldPart.ownOneofs parts) := by
  induction h generalizing next with
  | nil => exact .nil
  | @cons p part ps parts hpart _ ih =>
      have hmarked := hpart.proto3Optional
      cases hsynthetic : part.synthetic with
      | true =>
          obtain ⟨-, hoptional, htype⟩ := hpart.synthetic.mp hsynthetic
          rw [if_pos hsynthetic] at hmarked
          rw [FieldPart.fieldsFrom, if_pos hsynthetic, FieldPart.ownOneofs,
            List.filter_cons_of_pos hsynthetic, List.map_cons]
          exact .optional ⟨hpart.shown.jsonName, hpart.shown.name, hpart.shown.number⟩ hoptional htype
            hmarked rfl (ih (next + 1))
      | false =>
          have hnot : part.synthetic ≠ true := by rw [hsynthetic]; exact Bool.false_ne_true
          rw [if_neg hnot] at hmarked
          rw [FieldPart.fieldsFrom, if_neg hnot, FieldPart.ownOneofs, List.filter_cons_of_neg hnot]
          refine .plain hpart.shown ?_ hmarked hpart.oneofIndex (ih next)
          by_cases htype : part.field.type = some FieldType.message
          · exact Or.inr htype
          · left
            by_contra hoptional
            exact hnot (hpart.synthetic.mpr ⟨rfl, Bool.of_not_eq_false hoptional, htype⟩)

/-- No branch has a oneof of its own. -/
theorem synthetic_of_branch {i : Int} (h : List.Forall₂ (c.Yields message (some i)) ps parts) :
    ∀ part ∈ parts, part.synthetic = false := by
  intro part hpart
  obtain ⟨p, -, hp⟩ := exists_mem_of_forall₂ h hpart
  by_contra hsynthetic
  obtain ⟨hnone, -⟩ := hp.synthetic.mp (Bool.of_not_eq_false hsynthetic)
  cases hnone

theorem FieldPart.fieldsFrom_eq_map (h : ∀ part ∈ parts, part.synthetic = false) (next : Nat) :
    fieldsFrom next parts = parts.map FieldPart.field := by
  induction parts with
  | nil => rfl
  | cons part rest ih =>
      have hpart := h part List.mem_cons_self
      rw [fieldsFrom, if_neg (by rw [hpart]; exact Bool.false_ne_true),
        ih fun part hpart => h part (List.mem_cons_of_mem _ hpart), List.map_cons]

theorem FieldPart.ownOneofs_eq_nil (h : ∀ part ∈ parts, part.synthetic = false) :
    ownOneofs parts = [] := by
  rw [ownOneofs, List.map_eq_nil_iff, List.filter_eq_nil_iff]
  intro part hpart
  rw [h part hpart]
  exact Bool.false_ne_true

/-- The message of a oneof has one oneof, and the parts of its branches are all its fields. -/
theorem Lays.of_branches {m : MessageDescriptor} {i : Int} {oneofs : List OneofDescriptor}
    (h : c.Lays message (some i) oneofs ps m parts) :
    m.fields = parts.map FieldPart.field ∧ m.oneofs = oneofs := by
  have hplain := synthetic_of_branch h.each
  constructor
  · rw [h.fields, FieldPart.fieldsFrom_eq_map hplain]
  · rw [h.oneofs, FieldPart.ownOneofs_eq_nil hplain, List.append_nil]

theorem oneofless_mapEntry (name : String) (span : Span) (value : ValueType) :
    (mapEntry name span value).descriptor.Oneofless where
  oneofs := rfl
  fields f hf := by
    rcases List.mem_pair.mp hf with rfl | rfl
    · exact ⟨rfl, rfl⟩
    · exact ⟨rfl, rfl⟩

theorem oneofless_polymorph (node : PolymorphNode) : (polymorphDraft node).descriptor.Oneofless where
  oneofs := rfl
  fields f hf := by
    rw [List.mem_singleton.mp hf]
    exact ⟨rfl, rfl⟩

theorem Makes.grouped {package : String} {node : SchemaNode} {placed : List String × MessageDescriptor}
    (h : c.Makes package node placed) : node.Grouped placed.2 := by
  cases h with
  | object laid =>
      have hlowered := lowered_of_yields laid.each 0
      refine .object ?_
      rw [laid.fields, laid.oneofs]
      exact hlowered
  | oneof laid =>
      obtain ⟨hfields, honeofs⟩ := laid.of_branches
      refine .oneof ?_ honeofs fun f hf => ?_
      · rw [hfields, List.forall₂_map_right_iff]
        exact laid.each.imp fun _ _ hpart => hpart.shown
      · rw [hfields] at hf
        obtain ⟨part, hpart, rfl⟩ := List.mem_map.mp hf
        obtain ⟨p, -, hp⟩ := exists_mem_of_forall₂ laid.each hpart
        have hmarked := hp.proto3Optional
        rw [synthetic_of_branch laid.each part hpart] at hmarked
        exact ⟨hp.oneofIndex, hmarked⟩
  | polymorph => exact .polymorph (oneofless_polymorph _)

theorem Makes.path {package : String} {node : SchemaNode} {placed : List String × MessageDescriptor}
    (h : c.Makes package node placed) : placed.1 = node.head.childNest := by
  cases h with
  | object laid => rfl
  | oneof laid => rfl
  | polymorph => rfl

theorem Makes.oneofless_of_mapEntry {package : String} {node : SchemaNode}
    {placed : List String × MessageDescriptor} (h : c.Makes package node placed)
    {entry : MessageDescriptor} (hentry : entry ∈ placed.2.mapEntries) : entry.Oneofless := by
  obtain ⟨name, span, value, rfl⟩ := h.exists_mapEntry hentry
  exact oneofless_mapEntry name span value

/-- Every property of a schema has a part in the message made from it. -/
theorem Makes.exists_yields {package : String} {node : SchemaNode}
    {placed : List String × MessageDescriptor} (h : c.Makes package node placed) {p : PropertyNode}
    (hp : p ∈ node.properties) :
    ∃ message oneof part, c.Yields message oneof p part := by
  cases h with
  | object laid =>
      obtain ⟨part, -, hpart⟩ := exists_mem_of_forall₂ laid.each.flip hp
      exact ⟨_, _, part, hpart⟩
  | oneof laid =>
      obtain ⟨part, -, hpart⟩ := exists_mem_of_forall₂ laid.each.flip hp
      exact ⟨_, _, part, hpart⟩
  | polymorph => cases hp

theorem Yields.not_isCollection {oneof : Option Int} {p : PropertyNode} {part : FieldPart}
    (h : c.Yields message oneof p part) (hoptional : p.optional = true) : p.isCollection = false := by
  obtain ⟨value, -, hlaid⟩ := h.laidOut
  cases hlaid with
  | single kind => exact kind
  | array _ _ hnot | map _ hnot =>
      rw [hoptional] at hnot
      cases hnot

end Conversion

namespace Document

variable {d : Document} {r : Resolver} {files : List FileDescriptor}

/-- Optional properties and branches are grouped into oneofs as they were declared, no other field is in
a oneof, and no oneof is left without the fields it is for. -/
theorem convert_oneofs (h : d.convert r = .ok files) :
    List.Forall₂ FileNodes.Grouped d.fileNodes files ∧
    (∀ f ∈ files, ∀ path m, f.part? path = some (.message m) → m.OneofsFit) ∧
    ∀ nodes ∈ d.fileNodes, ∀ node ∈ nodes.schemas, ∀ p ∈ node.properties,
      ¬ (p.required = true ∧ p.optional = true) ∧ (p.optional = true → p.isCollection = false) := by
  have hmade := convert_makes h
  refine ⟨?_, ?_, ?_⟩
  · refine hmade.imp fun nodes f hf => hf.messages.imp fun node placed hmakes => ?_
    exact ⟨hmakes.path, hmakes.grouped, fun entry => hmakes.oneofless_of_mapEntry⟩
  · intro f hf path m hm
    obtain ⟨nodes, -, hnodes⟩ := exists_mem_of_forall₂ hmade hf
    obtain ⟨node, -, placed, hmakes, rfl | hentry⟩ := hnodes.exists_makes hm
    · exact hmakes.grouped.oneofsFit
    · exact (hmakes.oneofless_of_mapEntry hentry).oneofsFit
  · intro nodes hnodes node hnode p hp
    obtain ⟨f, -, hf⟩ := exists_mem_of_forall₂ hmade.flip hnodes
    obtain ⟨placed, -, hmakes⟩ := exists_mem_of_forall₂ hf.messages.flip hnode
    obtain ⟨message, oneof, part, hpart⟩ := hmakes.exists_yields hp
    exact ⟨hpart.notBoth, hpart.not_isCollection⟩

/-- Parcels go by a route.  What is optional about a parcel is a note, its weight and its sender, which is
a message. -/
def parcelRoutes : Document where
  path := "a/v1/a.j5s"
  package := "a.v1"
  elements :=
    [.object
      { name := "Parcel"
        properties :=
          [{ name := "labels", schema := .map (.string {}) {} },
           { name := "note", optional := true, schema := .string {} },
           { name := "sender", optional := true, schema := .object (.inline sender) false },
           { name := "weight", optional := true, schema := .integer {} },
           { name := "route", schema := .oneof (.inline route) }] },
     .polymorph { name := "Item", members := ["a.v1.Parcel"] }]
where
  sender : ObjectDecl :=
    { name := "Sender", properties := [{ name := "street", optional := true, schema := .string {} }] }
  route : OneofDecl :=
    { name := "Route"
      properties :=
        [{ name := "road", schema := .string {} },
         { name := "rail", optional := true, schema := .bool {} },
         { name := "back", schema := .object (.named ⟨none, "Parcel.Sender"⟩) false }] }

theorem parcelRoutes_convert : ∃ files, parcelRoutes.convert (TypeTable.resolve {}) = .ok files :=
  exists_convert (by decide +kernel)

theorem convert_oneofs_parcelRoutes : ∃ files,
    parcelRoutes.convert (TypeTable.resolve {}) = .ok files ∧
    List.Forall₂ FileNodes.Grouped parcelRoutes.fileNodes files ∧
    (∀ f ∈ files, ∀ path m, f.part? path = some (.message m) → m.OneofsFit) ∧
    (files.flatMap fun f => f.placedMessages.map fun placed =>
      (placed.2.nameText, placed.2.oneofs.map OneofDescriptor.nameText,
        placed.2.fields.map FieldDescriptor.oneofIndex)) =
      [("Parcel", ["_note", "_weight"], [none, some 0, none, some 1, none]),
        ("Sender", ["_street"], [some 0]), ("Route", ["type"], [some 0, some 0, some 0]),
        ("Item", [], [none])] := by
  obtain ⟨files, hconvert⟩ := parcelRoutes_convert
  obtain ⟨hgrouped, hfit, -⟩ := convert_oneofs hconvert
  obtain ⟨-, rfl⟩ := convert_eq_ok hconvert
  exact ⟨_, hconvert, hgrouped, hfit, by decide +kernel⟩

end Document

/-! ## Members of oneofs -/

def SchemaNode.isOneof : SchemaNode → Bool
  | .oneof _ => true
  | _ => false

namespace FileDescriptor

/-- A field of a message, wherever this stands in the file, that belongs to a oneof. -/
def IsMember (f : FileDescriptor) (field : FieldDescriptor) : Prop :=
  ∃ path m, f.part? path = some (.message m) ∧ field ∈ m.fields ∧ field.oneofIndex ≠ none

/-- The names of the entries of maps, as fields write them. -/
def entryNames (f : FileDescriptor) : List String :=
  f.placedMessages.flatMap fun placed =>
    placed.2.mapEntries.map fun entry => "." ++ scopeOf f.packageText (placed.1 ++ [entry.nameText])

end FileDescriptor

namespace Document

/-- No branch of a oneof is an array or a map. -/
def SingularBranches (d : Document) : Prop :=
  ∀ nodes ∈ d.fileNodes, ∀ node ∈ nodes.schemas, node.isOneof = true →
    ∀ p ∈ node.properties, p.isCollection = false

/-- The types that the properties of all schemas look up. -/
def fieldLookups (d : Document) : List RefName :=
  d.fileNodes.flatMap fun nodes => nodes.schemas.flatMap fun node => PropertyNode.lookups node.properties

/-- No type that a property names bears the name of an entry in `files`.  A schema nested beside a map
may, and then the name stands for both. -/
def SparesEntries (d : Document) (r : Resolver) (files : List FileDescriptor) : Prop :=
  ∀ target ∈ d.fieldLookups, ∀ t, (d.conversion r).lookup target = .ok t →
    ∀ f ∈ files, t.dottedName ∉ f.entryNames

end Document

namespace Conversion

variable {c : Conversion} {message : String} {ps : List PropertyNode} {parts : List FieldPart}

theorem FieldPart.mem_fieldsFrom {next : Nat} {f : FieldDescriptor} (h : f ∈ fieldsFrom next parts) :
    ∃ part ∈ parts, ∃ index, f = { part.field with oneofIndex := index } ∧
      (part.synthetic = true ∨ index = part.field.oneofIndex) := by
  induction parts generalizing next with
  | nil => cases h
  | cons part rest ih =>
      have hrest : ∀ {next}, f ∈ fieldsFrom next rest → ∃ x ∈ part :: rest, ∃ index,
          f = { x.field with oneofIndex := index } ∧
            (x.synthetic = true ∨ index = x.field.oneofIndex) := by
        intro next h
        obtain ⟨x, hx, hf⟩ := ih h
        exact ⟨x, List.mem_cons_of_mem _ hx, hf⟩
      rw [fieldsFrom] at h
      split at h
      · rename_i hsynthetic
        rcases List.mem_cons.mp h with rfl | h
        · exact ⟨part, List.mem_cons_self, _, rfl, Or.inl hsynthetic⟩
        · exact hrest h
      · rcases List.mem_cons.mp h with rfl | h
        · exact ⟨part, List.mem_cons_self, _, rfl, Or.inr rfl⟩
        · exact hrest h

theorem valueType_named {property : String} {f : FieldNode} {value : ValueType}
    (h : c.valueType property f = .ok value) {name : String} (hname : value.typeName = some name) :
    ∃ target ∈ f.lookups, ∃ t, c.lookup target = .ok t ∧ name = t.dottedName := by
  have hnamed : ∀ {target}, f.target? = some target → target ∈ f.lookups →
      ∃ target ∈ f.lookups, ∃ t, c.lookup target = .ok t ∧ name = t.dottedName := by
    intro target htarget hmem
    obtain ⟨t, ht, htype⟩ := valueType_target h htarget
    exact ⟨target, hmem, t, ht, Option.some.inj (hname.symm.trans htype)⟩
  cases f with
  | decimal _ | date _ | timestamp _ | any _ =>
      obtain ⟨t, ht, h⟩ := bind_eq_ok h
      cases h
      exact ⟨_, List.mem_cons_self, t, ht, (Option.some.inj hname).symm⟩
  | enum _ _ _ | object _ _ | oneof _ | polymorph _ => exact hnamed rfl List.mem_cons_self
  | array _ _ _ | map _ _ => cases h
  | _ =>
      cases h
      cases hname

/-- The label of a field, and the type of one that is singular, are those of its property. -/
theorem Yields.field_eq {oneof : Option Int} {p : PropertyNode} {part : FieldPart}
    (h : c.Yields message oneof p part) :
    if p.isCollection then part.field.label = some FieldLabel.repeated
    else part.field.label = some FieldLabel.optional ∧ ∀ name, part.field.typeName = some name →
      ∃ target ∈ p.field.lookups, ∃ t, c.lookup target = .ok t ∧ name = t.dottedName := by
  obtain ⟨value, hvalue, hlaid⟩ := h.laidOut
  cases hlaid with
  | single kind label _ typeName =>
      rw [if_neg (by rw [kind]; exact Bool.false_ne_true)]
      refine ⟨label, fun name hname => ?_⟩
      rw [typeName] at hname
      obtain ⟨harray, hmap⟩ := Bool.or_eq_false_iff.mp kind
      have hitem : p.field.item = p.field := by
        cases hf : p.field with
        | array _ _ _ =>
            rw [hf] at harray
            cases harray
        | map _ _ =>
            rw [hf] at hmap
            cases hmap
        | _ => rfl
      rw [hitem] at hvalue
      exact valueType_named hvalue hname
  | array kind _ _ label =>
      rw [if_pos (by rw [PropertyNode.isCollection, kind]; rfl)]
      exact label
  | map isMap _ label =>
      rw [if_pos (by rw [PropertyNode.isCollection, ← PropertyNode.isMap, isMap, Bool.or_true])]
      exact label

/-- A member of a oneof has the label and the type of a property, which is no array and no map unless
it is a branch. -/
theorem Lays.exists_property {oneof : Option Int} {oneofs : List OneofDescriptor} {m : MessageDescriptor}
    (h : c.Lays message oneof oneofs ps m parts) {f : FieldDescriptor} (hf : f ∈ m.fields)
    (hmember : f.oneofIndex ≠ none) :
    ∃ p ∈ ps, (p.isCollection = true → oneof ≠ none) ∧
      if p.isCollection then f.label = some FieldLabel.repeated
      else f.label = some FieldLabel.optional ∧ ∀ name, f.typeName = some name →
        ∃ target ∈ p.field.lookups, ∃ t, c.lookup target = .ok t ∧ name = t.dottedName := by
  rw [h.fields] at hf
  obtain ⟨part, hpart, index, rfl, hindex⟩ := FieldPart.mem_fieldsFrom hf
  obtain ⟨p, hp, hyields⟩ := exists_mem_of_forall₂ h.each hpart
  refine ⟨p, hp, fun hcollection => ?_, hyields.field_eq⟩
  rcases hindex with hsynthetic | rfl
  · obtain ⟨-, hoptional, -⟩ := hyields.synthetic.mp hsynthetic
    rw [hyields.not_isCollection hoptional] at hcollection
    cases hcollection
  · rw [← hyields.oneofIndex]
    exact hmember

theorem Makes.exists_property {package : String} {node : SchemaNode}
    {placed : List String × MessageDescriptor} (h : c.Makes package node placed) {f : FieldDescriptor}
    (hf : f ∈ placed.2.fields) (hmember : f.oneofIndex ≠ none) :
    ∃ p ∈ node.properties, (p.isCollection = true → node.isOneof = true) ∧
      if p.isCollection then f.label = some FieldLabel.repeated
      else f.label = some FieldLabel.optional ∧ ∀ name, f.typeName = some name →
        ∃ target ∈ p.field.lookups, ∃ t, c.lookup target = .ok t ∧ name = t.dottedName := by
  cases h with
  | object laid =>
      obtain ⟨p, hp, hcollection, hfield⟩ := laid.exists_property hf hmember
      exact ⟨p, hp, fun h => absurd rfl (hcollection h), hfield⟩
  | oneof laid =>
      obtain ⟨p, hp, -, hfield⟩ := laid.exists_property hf hmember
      exact ⟨p, hp, fun _ => rfl, hfield⟩
  | polymorph => exact absurd ((oneofless_polymorph _).fields f hf).1 hmember

/-- Where a branch is an array or a map, a member of the oneof is repeated. -/
theorem Makes.exists_repeated {package : String} {node : SchemaNode}
    {placed : List String × MessageDescriptor} (h : c.Makes package node placed)
    (honeof : node.isOneof = true) {p : PropertyNode} (hp : p ∈ node.properties)
    (hcollection : p.isCollection = true) :
    ∃ f ∈ placed.2.fields, f.oneofIndex ≠ none ∧ f.label = some FieldLabel.repeated := by
  cases h with
  | object laid => cases honeof
  | polymorph => cases honeof
  | oneof laid =>
      obtain ⟨hfields, -⟩ := laid.of_branches
      obtain ⟨part, hpart, hyields⟩ := exists_mem_of_forall₂ laid.each.flip hp
      refine ⟨part.field, ?_, ?_, ?_⟩
      · rw [hfields]
        exact List.mem_map_of_mem hpart
      · rw [hyields.oneofIndex]
        exact Option.some_ne_none 0
      · have hlabel := hyields.field_eq
        rwa [if_pos hcollection] at hlabel

end Conversion

namespace Document

variable {d : Document} {r : Resolver} {files : List FileDescriptor}

theorem mem_fieldLookups {nodes : FileNodes} (hnodes : nodes ∈ d.fileNodes) {node : SchemaNode}
    (hnode : node ∈ nodes.schemas) {p : PropertyNode} (hp : p ∈ node.properties) {target : RefName}
    (htarget : target ∈ p.field.lookups) : target ∈ d.fieldLookups :=
  List.mem_flatMap_of_mem hnodes (List.mem_flatMap_of_mem hnode (List.mem_flatMap_of_mem hp htarget))

/-- A member of a oneof, in whatever message it is, has the label and the type of a property. -/
theorem exists_property_of_isMember (h : d.convert r = .ok files) {f : FileDescriptor} (hf : f ∈ files)
    {field : FieldDescriptor} (hfield : f.IsMember field) :
    ∃ nodes ∈ d.fileNodes, ∃ node ∈ nodes.schemas, ∃ p ∈ node.properties,
      (p.isCollection = true → node.isOneof = true) ∧
      if p.isCollection then field.label = some FieldLabel.repeated
      else field.label = some FieldLabel.optional ∧ ∀ name, field.typeName = some name →
        ∃ target ∈ p.field.lookups, ∃ t, (d.conversion r).lookup target = .ok t ∧
          name = t.dottedName := by
  obtain ⟨path, m, hm, hfield, hmember⟩ := hfield
  obtain ⟨nodes, hnodes, hmade⟩ := exists_mem_of_forall₂ (convert_makes h) hf
  obtain ⟨node, hnode, placed, hmakes, rfl | hentry⟩ := hmade.exists_makes hm
  · obtain ⟨p, hp, hproperty⟩ := hmakes.exists_property hfield hmember
    exact ⟨nodes, hnodes, node, hnode, p, hp, hproperty⟩
  · exact absurd ((hmakes.oneofless_of_mapEntry hentry).fields field hfield).1 hmember

/-- The members of oneofs are all singular exactly if no branch is an array or a map.  The type of such
a member is then never the entry of a map, unless a type that the document names is called like one. -/
theorem convert_singular_members (h : d.convert r = .ok files) :
    ((∀ f ∈ files, ∀ field, f.IsMember field → field.label = some FieldLabel.optional) ↔
      d.SingularBranches) ∧
    (d.SingularBranches → d.SparesEntries r files → ∀ f ∈ files, ∀ field, f.IsMember field →
      ∀ name, field.typeName = some name → ∀ g ∈ files, name ∉ g.entryNames) := by
  have hsingular : d.SingularBranches → ∀ f ∈ files, ∀ field, f.IsMember field →
      field.label = some FieldLabel.optional ∧ ∀ name, field.typeName = some name →
        ∃ target ∈ d.fieldLookups, ∃ t, (d.conversion r).lookup target = .ok t ∧
          name = t.dottedName := by
    intro hbranches f hf field hfield
    obtain ⟨nodes, hnodes, node, hnode, p, hp, honeof, hproperty⟩ :=
      exists_property_of_isMember h hf hfield
    have hsingle : p.isCollection ≠ true := by
      intro hcollection
      have hnot := hbranches nodes hnodes node hnode (honeof hcollection) p hp
      rw [hcollection] at hnot
      cases hnot
    rw [if_neg hsingle] at hproperty
    refine ⟨hproperty.1, fun name hname => ?_⟩
    obtain ⟨target, htarget, t, ht, heq⟩ := hproperty.2 name hname
    exact ⟨target, mem_fieldLookups hnodes hnode hp htarget, t, ht, heq⟩
  refine ⟨⟨?_, fun hbranches f hf field hfield => (hsingular hbranches f hf field hfield).1⟩, ?_⟩
  · intro hlabels nodes hnodes node hnode honeof p hp
    by_contra hcollection
    obtain ⟨f, hf, hmade⟩ := exists_mem_of_forall₂ (convert_makes h).flip hnodes
    obtain ⟨placed, hplaced, hmakes⟩ := exists_mem_of_forall₂ hmade.messages.flip hnode
    obtain ⟨field, hfield, hmember, hrepeated⟩ :=
      hmakes.exists_repeated honeof hp (Bool.of_not_eq_false hcollection)
    obtain ⟨path, hpath⟩ := FileDescriptor.exists_part?_of_mem_placed hplaced
    have hlabel := hlabels f hf field ⟨path, placed.2, hpath, hfield, hmember⟩
    rw [hrepeated] at hlabel
    exact absurd hlabel (by decide)
  · intro hbranches hspares f hf field hfield name hname g hg
    obtain ⟨target, htarget, t, ht, rfl⟩ := (hsingular hbranches f hf field hfield).2 name hname
    exact hspares target htarget t ht g hg

theorem convert_singular_members_parcelRoutes : ∃ files,
    parcelRoutes.convert (TypeTable.resolve {}) = .ok files ∧
    parcelRoutes.SingularBranches ∧ parcelRoutes.SparesEntries (TypeTable.resolve {}) files ∧
    (files.flatMap FileDescriptor.entryNames) = [".a.v1.Parcel.LabelsEntry"] ∧
    ∀ f ∈ files, ∀ field, f.IsMember field → field.label = some FieldLabel.optional ∧
      ∀ name, field.typeName = some name → ∀ g ∈ files, name ∉ g.entryNames := by
  obtain ⟨files, hconvert⟩ := parcelRoutes_convert
  have hsingular := convert_singular_members hconvert
  obtain ⟨-, rfl⟩ := convert_eq_ok hconvert
  have hbranches : parcelRoutes.SingularBranches := by
    unfold SingularBranches
    decide +kernel
  have hfound : ∀ target ∈ parcelRoutes.fieldLookups,
      ∀ t ∈ ((parcelRoutes.conversion (TypeTable.resolve {})).lookup target).toOption.toList,
      ∀ f ∈ (parcelRoutes.drafts (parcelRoutes.conversion (TypeTable.resolve {}))
        parcelRoutes.nodes).map FileDraft.descriptor, t.dottedName ∉ f.entryNames := by
    decide +kernel
  have hspares := fun target htarget t
      (ht : (parcelRoutes.conversion (TypeTable.resolve {})).lookup target = .ok t) =>
    hfound target htarget t (by rw [ht]; exact List.mem_singleton_self t)
  refine ⟨_, hconvert, hbranches, hspares, by decide +kernel, fun f hf field hfield => ⟨?_, ?_⟩⟩
  · exact hsingular.1.mpr hbranches f hf field hfield
  · exact hsingular.2 hbranches hspares f hf field hfield

/-- The branches of this oneof are an array and a map. -/
def repeatedBranches : Document where
  path := "foo/v1/foo.j5s"
  package := "foo.v1"
  elements :=
    [.oneof
      { name := "Foo"
        properties :=
          [{ name := "tags", schema := .array (.string {}) {} none },
           { name := "labels", schema := .map (.string {}) {} }] }]

/-- The oneof is accepted, although its members are repeated and one of them is of an entry's type. -/
theorem convert_repeatedBranches : ∃ files,
    repeatedBranches.convert (TypeTable.resolve {}) = .ok files ∧
    ∃ f ∈ files, ∃ m, f.part? [4, 0] = some (.message m) ∧
      m.fields.map (fun field => (field.oneofIndex, field.label, field.typeName)) =
        [(some 0, some FieldLabel.repeated, none),
          (some 0, some FieldLabel.repeated, some ".foo.v1.Foo.LabelsEntry")] ∧
      ".foo.v1.Foo.LabelsEntry" ∈ f.entryNames := by
  obtain ⟨files, hconvert⟩ : ∃ files, repeatedBranches.convert (TypeTable.resolve {}) = .ok files :=
    exists_convert (by decide +kernel)
  obtain ⟨-, rfl⟩ := convert_eq_ok hconvert
  exact ⟨_, hconvert, _, List.mem_cons_self, _, rfl, by decide +kernel, by decide +kernel⟩

end Document
end Schematic
