import Schematic.Proofs.Conversion.Shape
import Schematic.Proofs.Descriptor.Comments

/-!
# Comments and descriptions

A file has a comment on each element whose node has a description that is not blank, and no other
comment.  The path of the comment leads to that element, past the entries of maps, which have places among
the messages but no nodes.
-/

namespace Schematic

/-! ## Elements and nodes side by side -/

/-- A node that an element of a file is made from. -/
inductive NodePart where
  | schema (node : SchemaNode)
  | property (node : PropertyNode)
  | option (o : EnumOption)
  | service (source : ServiceSource)
  | method (node : MethodNode)
  | topicMessage (node : TopicMessageNode)

def ServiceSource.description : ServiceSource → Option String
  | .service node => node.head.description
  | .topic node => node.head.description

/-- What becomes the methods of a service. -/
def ServiceSource.methods : ServiceSource → List NodePart
  | .service node => node.methods.map .method
  | .topic node => node.messages.map .topicMessage

def NodePart.description : NodePart → Option String
  | .schema node => node.head.description
  | .property node => node.description
  | .option o => o.description
  | .service source => source.description
  | .method node => node.description
  | .topicMessage node => node.description

def SchemaNode.properties : SchemaNode → List PropertyNode
  | .object node => node.properties
  | .oneof node => node.properties
  | _ => []

def SchemaNode.nested : SchemaNode → List SchemaNode
  | .object node => node.nested
  | .oneof node => node.nested
  | _ => []

/-- Whether the first option is the unspecified value. -/
def EnumNode.startsUnspecified (node : EnumNode) : Bool :=
  node.options.head?.any fun first =>
    EnumTable.prefixed node.valuePrefix first.name = node.unspecifiedName

/-- The place among the values of the option at place `j`.  Unless the first option is the unspecified
value, that value stands before them all. -/
def EnumNode.valuePlace (node : EnumNode) (j : Nat) : Nat :=
  if node.startsUnspecified then j else j + 1

/-- An element inside another, by the number of its row and its place there, and beside it the node that
it is made from.  The entries of maps are passed over. -/
inductive PartOf : FilePart → NodePart → Int → Nat → FilePart → NodePart → Prop
  | field {m : MessageDescriptor} {node : SchemaNode} {i : Nat} {f : FieldDescriptor} {p : PropertyNode}
      (element : m.fields[i]? = some f) (made : node.properties[i]? = some p) :
      PartOf (.message m) (.schema node) 2 i (.field f) (.property p)
  | message {m : MessageDescriptor} {node : SchemaNode} {i k : Nat} {n : MessageDescriptor}
      {child : SchemaNode}
      (element : (m.nested.zipIdx.filter fun n => !n.1.isMapEntry)[k]? = some (n, i))
      (made : (SchemaNode.messages node.nested)[k]? = some child) :
      PartOf (.message m) (.schema node) 3 i (.message n) (.schema child)
  | enum {m : MessageDescriptor} {node : SchemaNode} {i : Nat} {e : EnumDescriptor} {child : EnumNode}
      (element : m.enums[i]? = some e) (made : (SchemaNode.enums node.nested)[i]? = some child) :
      PartOf (.message m) (.schema node) 4 i (.enum e) (.schema (.enum child))
  | value {e : EnumDescriptor} {node : EnumNode} {j : Nat} {v : EnumValueDescriptor} {o : EnumOption}
      (element : e.values[node.valuePlace j]? = some v) (made : node.options[j]? = some o) :
      PartOf (.enum e) (.schema (.enum node)) 2 (node.valuePlace j) (.enumValue v) (.option o)
  | method {s : ServiceDescriptor} {source : ServiceSource} {i : Nat} {m : MethodDescriptor}
      {n : NodePart} (element : s.methods[i]? = some m) (made : source.methods[i]? = some n) :
      PartOf (.service s) (.service source) 2 i (.method m) n

/-- A path leads from an element to one at or below it, and from the node of the one to the node of the
other. -/
inductive Leads : FilePart → NodePart → List Int → FilePart → NodePart → Prop
  | here {p : FilePart} {n : NodePart} : Leads p n [] p n
  | step {p q r : FilePart} {n m k : NodePart} {number : Int} {i : Nat} {path : List Int}
      (first : PartOf p n number i q m) (rest : Leads q m path r k) :
      Leads p n (number :: (i : Int) :: path) r k

/-- A path leads from a file to an element, and to the node of that element. -/
inductive FileNodes.Leads (nodes : FileNodes) (f : FileDescriptor) :
    List Int → FilePart → NodePart → Prop
  | message {i : Nat} {m : MessageDescriptor} {node : SchemaNode} {path : List Int} {p : FilePart}
      {n : NodePart} (element : f.messages[i]? = some m) (made : nodes.messages[i]? = some node)
      (rest : Schematic.Leads (.message m) (.schema node) path p n) :
      nodes.Leads f (4 :: (i : Int) :: path) p n
  | enum {i : Nat} {e : EnumDescriptor} {node : EnumNode} {path : List Int} {p : FilePart}
      {n : NodePart} (element : f.enums[i]? = some e) (made : nodes.enums[i]? = some node)
      (rest : Schematic.Leads (.enum e) (.schema (.enum node)) path p n) :
      nodes.Leads f (5 :: (i : Int) :: path) p n
  | service {i : Nat} {s : ServiceDescriptor} {source : ServiceSource} {path : List Int}
      {p : FilePart} {n : NodePart} (element : f.services[i]? = some s)
      (made : nodes.services[i]? = some source)
      (rest : Schematic.Leads (.service s) (.service source) path p n) :
      nodes.Leads f (6 :: (i : Int) :: path) p n

/-- A node has a description that is not blank. -/
def NodePart.Described (n : NodePart) (text : String) : Prop :=
  n.description = some text ∧ Text.isBlank text = false

/-- The locations of a file are those of the elements whose nodes are described, each once. -/
structure FileNodes.CommentedBy (nodes : FileNodes) (f : FileDescriptor) : Prop where
  present : f.locations.isSome = true ↔
    ∃ path part node text, nodes.Leads f path part node ∧ node.Described text
  ascending : ((f.locations.getD []).map Location.path).Pairwise (· < ·)
  described : ∀ path leading, (∃ l ∈ f.locations.getD [], l.path = path ∧ l.leading = leading) ↔
    ∃ part node text, f.part? path = some part ∧ nodes.Leads f path part node ∧ node.Described text ∧
      leading = some (" " ++ Text.replace '\n' "\n " (Text.trim text) ++ "\n")

/-! ## Paths lead to elements -/

theorem PartOf.item? {p q : FilePart} {n m : NodePart} {number : Int} {i : Nat}
    (h : PartOf p n number i q m) : FilePart.item? p.rows number i = some q := by
  cases h with
  | field element => exact FilePart.item?_eq_some rfl (by rw [List.getElem?_map, element]; rfl)
  | @message m node i k n child element =>
      have hmem := (List.mem_filter.mp (List.mem_of_getElem? element)).1
      have hplace := List.mk_mem_zipIdx_iff_getElem?.mp hmem
      exact FilePart.item?_eq_some rfl (by rw [List.getElem?_map, hplace]; rfl)
  | enum element => exact FilePart.item?_eq_some rfl (by rw [List.getElem?_map, element]; rfl)
  | value element => exact FilePart.item?_eq_some rfl (by rw [List.getElem?_map, element]; rfl)
  | method element => exact FilePart.item?_eq_some rfl (by rw [List.getElem?_map, element]; rfl)

theorem Leads.place? {p q : FilePart} {n m : NodePart} {path : List Int} (h : Leads p n path q m) :
    ∀ scope, (p.place? scope path).map Prod.snd = some q := by
  induction h with
  | here => exact fun scope => rfl
  | step first rest ih =>
      intro scope
      rw [FilePart.place?, first.item?, Option.bind_some]
      exact ih _

theorem FileNodes.Leads.part? {nodes : FileNodes} {f : FileDescriptor} {path : List Int}
    {p : FilePart} {n : NodePart} (h : nodes.Leads f path p n) : f.part? path = some p := by
  have hitem : ∀ {number : Int} {row : List FilePart} {i : Nat} {q : FilePart} {rest : List Int}
      {m : NodePart}, f.rows.lookup number = some row → row[i]? = some q →
      Schematic.Leads q m rest p n → f.part? (number :: (i : Int) :: rest) = some p := by
    intro number row i q rest m hrow hq hrest
    rw [FileDescriptor.part?, FileDescriptor.place?, FilePart.item?_eq_some hrow hq,
      Option.bind_some]
    exact hrest.place? _
  cases h with
  | message element _ rest => exact hitem rfl (by rw [List.getElem?_map, element]; rfl) rest
  | enum element _ rest => exact hitem rfl (by rw [List.getElem?_map, element]; rfl) rest
  | service element _ rest => exact hitem rfl (by rw [List.getElem?_map, element]; rfl) rest

/-! ## Comments carry descriptions -/

/-- At a path below an element stands an element whose node is described. -/
def Tells (p : FilePart) (n : NodePart) (path : List Int) (text : String) : Prop :=
  ∃ q m, Leads p n path q m ∧ m.Described text

theorem tells_iff {p : FilePart} {n : NodePart} {path : List Int} {text : String} :
    Tells p n path text ↔ (path = [] ∧ n.Described text) ∨
      ∃ (number : Int) (i : Nat) (q : FilePart) (m : NodePart) (rest : List Int),
        PartOf p n number i q m ∧ path = number :: (i : Int) :: rest ∧ Tells q m rest text := by
  constructor
  · rintro ⟨q, m, hleads, hdescribed⟩
    cases hleads with
    | here => exact .inl ⟨rfl, hdescribed⟩
    | step first rest => exact .inr ⟨_, _, _, _, _, first, rfl, _, _, rest, hdescribed⟩
  · rintro (⟨rfl, hdescribed⟩ | ⟨number, i, q, m, rest, first, rfl, r, k, hleads, hdescribed⟩)
    · exact ⟨p, n, .here, hdescribed⟩
    · exact ⟨r, k, .step first hleads, hdescribed⟩

/-- An element without rows tells only of itself. -/
theorem tells_of_rows_nil {p : FilePart} {n : NodePart} (h : p.rows = []) {path : List Int}
    {text : String} : Tells p n path text ↔ path = [] ∧ n.Described text := by
  rw [tells_iff]
  refine or_iff_left ?_
  rintro ⟨number, i, q, m, rest, first, -⟩
  have hitem := first.item?
  rw [h] at hitem
  cases hitem

namespace Comments

/-- Comments that say what the nodes at and below an element do. -/
def Carry (comments : List Comment) (p : FilePart) (n : NodePart) : Prop :=
  ∀ path text, Says comments path text ↔ Tells p n path text

/-- Where nodes and drafts stand side by side, so do what the nodes tell and the comments. -/
theorem says_items {α β : Type} {nodes : List α} {drafts : List β} {comments : β → List Comment}
    {R : α → β → List Int → String → Prop}
    (h : List.Forall₂ (fun a b => ∀ path text, Says (comments b) path text ↔ R a b path text)
      nodes drafts) {number : Int} {start : Nat} {path : List Int} {text : String} :
    Says (row number start (drafts.map comments)) path text ↔
      ∃ (i : Nat) (a : α) (b : β) (rest : List Int), nodes[i]? = some a ∧ drafts[i]? = some b ∧
        path = number :: ((start + i : Nat) : Int) :: rest ∧ R a b rest text := by
  rw [says_row]
  constructor
  · rintro ⟨i, item, rest, hitem, rfl, hsays⟩
    rw [List.getElem?_map] at hitem
    obtain ⟨b, hb, rfl⟩ := Option.map_eq_some_iff.mp hitem
    obtain ⟨a, ha, hab⟩ := exists_getElem?_of_forall₂ h hb
    exact ⟨i, a, b, rest, ha, hb, rfl, (hab rest text).mp hsays⟩
  · rintro ⟨i, a, b, rest, ha, hb, rfl, htold⟩
    obtain ⟨a', ha', hab⟩ := exists_getElem?_of_forall₂ h hb
    cases Option.some.inj (ha.symm.trans ha')
    exact ⟨i, comments b, rest, by rw [List.getElem?_map, hb]; rfl, rfl, (hab rest text).mpr htold⟩

/-- The comments of elements that hold no others. -/
theorem says_describings {α β : Type} {nodes : List α} {drafts : List (Described β)}
    {description : α → Option String}
    (h : List.Forall₂ (fun a b => b.description = description a) nodes drafts) {number : Int}
    {path : List Int} {text : String} :
    Says (row number 0 (drafts.map fun d => Comment.describing [] d.span d.description)) path text ↔
      ∃ (i : Nat) (a : α), nodes[i]? = some a ∧ path = [number, (i : Int)] ∧
        description a = some text ∧ Text.isBlank text = false := by
  have hitems : List.Forall₂ (fun a (b : Described β) => ∀ path text,
      Says (Comment.describing [] b.span b.description) path text ↔
        path = [] ∧ description a = some text ∧ Text.isBlank text = false) nodes drafts := by
    refine h.imp fun a b hab path text => ?_
    rw [says_describing, hab]
  have hlength := h.length_eq
  rw [says_items hitems]
  constructor
  · rintro ⟨i, a, b, rest, ha, -, rfl, rfl, htext⟩
    exact ⟨i, a, ha, by rw [Nat.zero_add], htext⟩
  · rintro ⟨i, a, ha, rfl, htext⟩
    have hi : i < drafts.length := hlength ▸ (List.getElem?_eq_some_iff.mp ha).1
    exact ⟨i, a, drafts[i], [], ha, List.getElem?_eq_getElem hi, by rw [Nat.zero_add], rfl, htext⟩

end Comments

/-! ## Enums and services -/

namespace EnumNode

theorem descriptions_values (node : EnumNode) : node.values.map EnumValue.description =
    if node.startsUnspecified then node.options.map EnumOption.description
    else none :: node.options.map EnumOption.description := by
  have hnumbered : node.values.map EnumValue.description =
      node.zeroValue.description :: node.numberedOptions.map EnumOption.description := by
    rw [values, List.map_cons, List.map_map, ← List.zipIdx_map_fst 1 node.numberedOptions, List.map_map,
      List.zipIdx_map_fst]
    rfl
  rw [hnumbered, zeroValue, numberedOptions, startsUnspecified]
  cases node.options with
  | nil => rfl
  | cons first rest =>
      by_cases h : EnumTable.prefixed node.valuePrefix first.name = node.unspecifiedName
      · simp [h]
      · simp [h]

/-- A described value is that of an option, in its place. -/
theorem described_values {node : EnumNode} {i : Nat} {text : String} :
    (∃ v, node.values[i]? = some v ∧ v.description = some text) ↔
      ∃ j o, i = node.valuePlace j ∧ node.options[j]? = some o ∧ o.description = some text := by
  have hvalues : (∃ v, node.values[i]? = some v ∧ v.description = some text) ↔
      (node.values.map EnumValue.description)[i]? = some (some text) := by
    rw [List.getElem?_map, Option.map_eq_some_iff]
  have hoptions : ∀ j : Nat, (∃ o : EnumOption, node.options[j]? = some o ∧ o.description = some text) ↔
      (node.options.map EnumOption.description)[j]? = some (some text) := by
    intro j
    rw [List.getElem?_map, Option.map_eq_some_iff]
  simp only [exists_and_left, hvalues, hoptions, descriptions_values, valuePlace]
  by_cases hfirst : node.startsUnspecified = true
  · simp [hfirst]
  · simp only [hfirst, Bool.false_eq_true, if_false]
    cases i with
    | zero => simp
    | succ i => simp

end EnumNode

namespace Conversion

theorem enum_carry (node : EnumNode) : Comments.Carry (enumDraft node).comments
    (.enum (enumDraft node).descriptor) (.schema (.enum node)) := by
  intro path text
  have hdrafts : List.Forall₂ (fun (v : EnumValue) (d : Described EnumValueDescriptor) =>
      d.description = v.description) node.values (enumDraft node).values := by
    rw [enumDraft, List.forall₂_map_right_iff]
    exact List.forall₂_same.mpr fun v _ => rfl
  rw [EnumDraft.comments_eq, Comments.says_append, Comments.says_describing, Comments.rows,
    List.flatMap_singleton, Comments.says_describings hdrafts, tells_iff]
  refine or_congr Iff.rfl ⟨?_, ?_⟩
  · rintro ⟨i, v, hv, rfl, hdescription, hpresent⟩
    obtain ⟨j, o, rfl, ho, hdescription⟩ := EnumNode.described_values.mp ⟨v, hv, hdescription⟩
    have helement : (enumDraft node).descriptor.values[node.valuePlace j]? =
        some { name := some v.name, number := some v.number } := by
      rw [EnumDraft.descriptor, enumDraft, List.getElem?_map, List.getElem?_map, hv]
      rfl
    exact ⟨2, _, _, _, [], .value helement ho, rfl, _, _, .here, hdescription, hpresent⟩
  · rintro ⟨number, i, q, m, rest, first, rfl, htold⟩
    cases first with
    | value element made =>
        obtain ⟨rfl, hdescription, hpresent⟩ := (tells_of_rows_nil rfl).mp htold
        obtain ⟨v, hv, hdescription⟩ := EnumNode.described_values.mpr ⟨_, _, rfl, made, hdescription⟩
        exact ⟨_, v, hv, rfl, hdescription, hpresent⟩

/-- A service and its methods carry the descriptions of what they are made from. -/
theorem carry_service {source : ServiceSource} {d : ServiceDraft}
    (hhead : d.description = source.description)
    (hmethods : List.Forall₂ (fun (n : NodePart) (m : Described MethodDescriptor) =>
      m.description = n.description) source.methods d.methods) :
    Comments.Carry d.comments (.service d.descriptor) (.service source) := by
  intro path text
  rw [ServiceDraft.comments_eq, Comments.says_append, Comments.says_describing, Comments.rows,
    List.flatMap_singleton, Comments.says_describings hmethods, tells_iff, hhead]
  refine or_congr Iff.rfl ⟨?_, ?_⟩
  · rintro ⟨i, n, hn, rfl, htext⟩
    have hi : i < d.descriptor.methods.length := by
      rw [ServiceDraft.descriptor, List.length_map, ← hmethods.length_eq]
      exact (List.getElem?_eq_some_iff.mp hn).1
    exact ⟨2, i, _, n, [], .method (List.getElem?_eq_getElem hi) hn, rfl, _, _, .here, htext⟩
  · rintro ⟨number, i, q, m, rest, first, rfl, htold⟩
    cases first with
    | method element made =>
        obtain ⟨rfl, htext⟩ := (tells_of_rows_nil rfl).mp htold
        exact ⟨i, m, made, rfl, htext⟩

theorem service_carry (package : String) (node : ServiceNode) :
    Comments.Carry (serviceDraft package node).comments
      (.service (serviceDraft package node).descriptor) (.service (.service node)) := by
  refine carry_service rfl ?_
  rw [ServiceSource.methods, serviceDraft, List.forall₂_map_left_iff, List.forall₂_map_right_iff]
  exact List.forall₂_same.mpr fun m _ => rfl

theorem topic_carry (package : String) (node : TopicNode) :
    Comments.Carry (topicDraft package node).comments
      (.service (topicDraft package node).descriptor) (.service (.topic node)) := by
  refine carry_service rfl ?_
  rw [ServiceSource.methods, topicDraft, List.forall₂_map_left_iff, List.forall₂_map_right_iff]
  exact List.forall₂_same.mpr fun m _ => rfl

/-! ## Messages -/

end Conversion

theorem MessageDescriptor.zipIdx_declared {entries messages : List MessageDescriptor}
    (hentries : ∀ m ∈ entries, m.isMapEntry = true) (hmessages : ∀ m ∈ messages, m.isMapEntry = false) :
    ((entries ++ messages).zipIdx.filter fun n => !n.1.isMapEntry) = messages.zipIdx entries.length := by
  have hfirst : (entries.zipIdx.filter fun n => !n.1.isMapEntry) = [] := by
    refine List.filter_eq_nil_iff.mpr fun n hn => ?_
    rw [hentries n.1 (List.fst_mem_of_mem_zipIdx hn)]
    exact Bool.false_ne_true
  have hrest : ((messages.zipIdx entries.length).filter fun n => !n.1.isMapEntry) =
      messages.zipIdx entries.length := by
    refine List.filter_eq_self.mpr fun n hn => ?_
    rw [hmessages n.1 (List.fst_mem_of_mem_zipIdx hn)]
    rfl
  rw [List.zipIdx_append, List.filter_append, hfirst, Nat.zero_add, hrest, List.nil_append]

namespace Conversion

/-- What makes the comments of a message those of its node: its parts are described as the nodes are,
and the entries of maps stand before the messages of nested schemas. -/
structure Describes (node : SchemaNode) (d : MessageDraft) (entries messages : List MessageDraft) :
    Prop where
  head : d.description = node.head.description
  fields : List.Forall₂ (fun (p : PropertyNode) (f : Described FieldDescriptor) =>
    f.description = p.description) node.properties d.fields
  places : d.descriptor.fields.length = node.properties.length
  oneofs : ∀ o ∈ d.oneofs, o.description = none
  nested : d.nested = entries ++ messages
  entries : ∀ entry ∈ entries, ∃ name span value, entry = mapEntry name span value
  declared : ∀ m ∈ messages, m.descriptor.isMapEntry = false
  messages : List.Forall₂ (fun n (m : MessageDraft) =>
    Comments.Carry m.comments (.message m.descriptor) (.schema n)) (SchemaNode.messages node.nested) messages
  enums : List.Forall₂ (fun n (e : EnumDraft) =>
    Comments.Carry e.comments (.enum e.descriptor) (.schema (.enum n))) (SchemaNode.enums node.nested) d.enums

variable {node : SchemaNode} {d : MessageDraft} {entries messages : List MessageDraft}

/-- The messages of a message that are made from nodes, with their places. -/
theorem Describes.getElem?_declared (h : Describes node d entries messages) {k i : Nat}
    {n : MessageDescriptor} :
    (d.descriptor.nested.zipIdx.filter fun n => !n.1.isMapEntry)[k]? = some (n, i) ↔
      (∃ m, messages[k]? = some m ∧ m.descriptor = n) ∧ i = entries.length + k := by
  have hnested : d.descriptor.nested =
      entries.map MessageDraft.descriptor ++ messages.map MessageDraft.descriptor := by
    rw [← List.map_append, ← h.nested, ← MessageDraft.descriptors_eq]
    cases d
    rfl
  have hentries : ∀ m ∈ entries.map MessageDraft.descriptor, m.isMapEntry = true := by
    rw [List.forall_mem_map]
    intro entry hentry
    obtain ⟨name, span, value, rfl⟩ := h.entries entry hentry
    rfl
  have hdeclared : ∀ m ∈ messages.map MessageDraft.descriptor, m.isMapEntry = false := by
    rw [List.forall_mem_map]
    exact h.declared
  rw [hnested, MessageDescriptor.zipIdx_declared hentries hdeclared, List.getElem?_zipIdx,
    List.getElem?_map, List.length_map, Option.map_map, Option.map_eq_some_iff]
  simp only [Function.comp_apply, Prod.mk.injEq, ← and_assoc, exists_and_right, eq_comm]

theorem Describes.says_nested (h : Describes node d entries messages) {path : List Int}
    {text : String} :
    Comments.Says (Comments.row 3 0 (d.nested.map MessageDraft.comments)) path text ↔
      ∃ (k : Nat) (n : SchemaNode) (m : MessageDraft) (rest : List Int),
        (SchemaNode.messages node.nested)[k]? = some n ∧ messages[k]? = some m ∧
          path = 3 :: ((entries.length + k : Nat) : Int) :: rest ∧
            Tells (.message m.descriptor) (.schema n) rest text := by
  -- Entries have no comments, and shift the places of the messages behind them.
  have hsilent : Comments.row 3 0 (entries.map MessageDraft.comments) = [] := by
    refine Comments.row_of_silent ?_
    rw [List.forall_mem_map]
    intro entry hentry
    obtain ⟨name, span, value, rfl⟩ := h.entries entry hentry
    rfl
  rw [h.nested, List.map_append, Comments.row_append, hsilent, List.nil_append, List.length_map,
    Nat.zero_add]
  exact Comments.says_items h.messages

theorem Describes.carry (h : Describes node d entries messages) :
    Comments.Carry d.comments (.message d.descriptor) (.schema node) := by
  intro path text
  have honeofs : Comments.row 8 0
      (d.oneofs.map fun o => Comment.describing [] o.span o.description) = [] := by
    refine Comments.row_of_silent ?_
    rw [List.forall_mem_map]
    intro o ho
    rw [h.oneofs o ho]
    rfl
  have henums : d.descriptor.enums = d.enums.map EnumDraft.descriptor := by
    cases d
    rfl
  rw [MessageDraft.comments_eq, Comments.says_append, Comments.says_describing, h.head, tells_iff]
  refine or_congr Iff.rfl ?_
  simp only [Comments.rows, List.flatMap_cons, List.flatMap_nil, List.append_nil, honeofs,
    List.nil_append, Comments.says_append, Comments.says_describings h.fields, h.says_nested,
    Comments.says_items h.enums]
  constructor
  · rintro (⟨i, p, hp, rfl, htext⟩ | ⟨k, n, m, rest, hn, hm, rfl, htold⟩ |
      ⟨i, n, e, rest, hn, he, rfl, htold⟩)
    · have hi : i < d.descriptor.fields.length := by
        rw [h.places]
        exact (List.getElem?_eq_some_iff.mp hp).1
      exact ⟨2, i, _, _, [], .field (List.getElem?_eq_getElem hi) hp, rfl, _, _, .here, htext⟩
    · exact ⟨3, _, _, _, rest, .message (h.getElem?_declared.mpr ⟨⟨m, hm, rfl⟩, rfl⟩) hn, rfl, htold⟩
    · have helement : d.descriptor.enums[i]? = some e.descriptor := by
        rw [henums, List.getElem?_map, he]
        rfl
      exact ⟨4, i, _, _, rest, .enum helement hn, by rw [Nat.zero_add], htold⟩
  · rintro ⟨number, i, q, m, rest, first, rfl, htold⟩
    cases first with
    | field element made =>
        obtain ⟨rfl, htext⟩ := (tells_of_rows_nil rfl).mp htold
        exact .inl ⟨i, _, made, rfl, htext⟩
    | message element made =>
        obtain ⟨⟨m, hm, rfl⟩, rfl⟩ := h.getElem?_declared.mp element
        exact .inr (.inl ⟨_, _, m, rest, made, hm, rfl, htold⟩)
    | enum element made =>
        rw [henums, List.getElem?_map] at element
        obtain ⟨e, he, rfl⟩ := Option.map_eq_some_iff.mp element
        exact .inr (.inr ⟨i, _, e, rest, made, he, by rw [Nat.zero_add], htold⟩)

variable {c : Conversion}

theorem polymorph_carry (node : PolymorphNode) : Comments.Carry (polymorphDraft node).comments
    (.message (polymorphDraft node).descriptor) (.schema (.polymorph node)) := by
  intro path text
  have hcomments : (polymorphDraft node).comments =
      Comment.describing [] node.head.span node.head.description := by
    rw [MessageDraft.comments_eq]
    exact List.append_nil _
  rw [hcomments, Comments.says_describing, tells_iff]
  refine (or_iff_left ?_).symm
  rintro ⟨number, i, q, m, rest, first, -⟩
  cases first with
  | field element made => cases made
  | message element made => cases made
  | enum element made => cases made

theorem descriptions_fields {oneof : Option Int} {properties : List PropertyNode}
    (h : c.propertyErrors oneof properties = []) (message : String) :
    List.Forall₂ (fun (p : PropertyNode) (f : Described FieldDescriptor) =>
      f.description = p.description) properties (Conversion.fields (c.parts message oneof properties)) := by
  have hparts : List.Forall₂ (fun (p : PropertyNode) (f : Described FieldDescriptor) =>
      f.description = p.description) ((c.parts message oneof properties).map Prod.fst)
      (Conversion.fields (c.parts message oneof properties)) := by
    rw [Conversion.fields, List.forall₂_map_left_iff, List.forall₂_map_right_iff]
    exact List.forall₂_same.mpr fun part _ => rfl
  rw [parts_of_no_errors h] at hparts
  exact hparts

mutual

theorem object_carry (outer : String) : (node : ObjectNode) → c.objectErrors node = [] →
    Comments.Carry (c.objectDraft outer node).comments (.message (c.objectDraft outer node).descriptor)
      (.schema (.object node))
  | { head, properties, nested, entity, polymorphMember }, herrors => by
      rw [objectErrors, List.append_eq_nil_iff, List.append_eq_nil_iff] at herrors
      obtain ⟨hmessages, henums⟩ := schemas_carry (outer ++ "." ++ head.name) nested herrors.2
      have hdescribes : Describes (.object { head, properties, nested, entity, polymorphMember })
          (c.objectDraft outer { head, properties, nested, entity, polymorphMember })
          (Conversion.entries (c.parts (outer ++ "." ++ head.name) none properties))
          (c.messageDrafts (outer ++ "." ++ head.name) nested) := by
        rw [objectDraft]
        exact {
          head := rfl
          fields := descriptions_fields herrors.1.2 _
          places := (shownBy_fields herrors.1.2 _ _ _).length_eq.symm
          oneofs := List.forall_mem_nil _
          nested := rfl
          entries := fun _ => mapEntry_of_mem_entries
          declared := fun _ => isMapEntry_draft
          messages := hmessages
          enums := henums }
      exact hdescribes.carry

theorem oneof_carry (outer : String) : (node : OneofNode) → c.oneofErrors node = [] →
    Comments.Carry (c.oneofDraft outer node).comments (.message (c.oneofDraft outer node).descriptor)
      (.schema (.oneof node))
  | { head, properties, nested, entity }, herrors => by
      rw [oneofErrors, List.append_eq_nil_iff] at herrors
      obtain ⟨hmessages, henums⟩ := schemas_carry (outer ++ "." ++ head.name) nested herrors.2
      have hdescribes : Describes (.oneof { head, properties, nested, entity })
          (c.oneofDraft outer { head, properties, nested, entity })
          (Conversion.entries (c.parts (outer ++ "." ++ head.name) (some 0) properties))
          (c.messageDrafts (outer ++ "." ++ head.name) nested) := by
        rw [oneofDraft]
        exact {
          head := rfl
          fields := descriptions_fields herrors.1 _
          places := (shownBy_fields herrors.1 _ _ _).length_eq.symm
          oneofs := List.forall_mem_singleton.mpr rfl
          nested := rfl
          entries := fun _ => mapEntry_of_mem_entries
          declared := fun _ => isMapEntry_draft
          messages := hmessages
          enums := henums }
      exact hdescribes.carry

theorem schemas_carry (outer : String) : (nodes : List SchemaNode) → c.schemaErrorsList nodes = [] →
    List.Forall₂ (fun n (m : MessageDraft) =>
        Comments.Carry m.comments (.message m.descriptor) (.schema n))
      (SchemaNode.messages nodes) (c.messageDrafts outer nodes) ∧
    List.Forall₂ (fun n (e : EnumDraft) =>
        Comments.Carry e.comments (.enum e.descriptor) (.schema (.enum n)))
      (SchemaNode.enums nodes) (enumDrafts nodes)
  | [], _ => ⟨.nil, .nil⟩
  | .object node :: rest, herrors => by
      rw [schemaErrorsList, schemaErrors, List.append_eq_nil_iff] at herrors
      obtain ⟨hmessages, henums⟩ := schemas_carry outer rest herrors.2
      exact ⟨.cons (object_carry outer node herrors.1) hmessages, henums⟩
  | .oneof node :: rest, herrors => by
      rw [schemaErrorsList, schemaErrors, List.append_eq_nil_iff] at herrors
      obtain ⟨hmessages, henums⟩ := schemas_carry outer rest herrors.2
      exact ⟨.cons (oneof_carry outer node herrors.1) hmessages, henums⟩
  | .polymorph node :: rest, herrors => by
      rw [schemaErrorsList, List.append_eq_nil_iff] at herrors
      obtain ⟨hmessages, henums⟩ := schemas_carry outer rest herrors.2
      exact ⟨.cons (polymorph_carry node) hmessages, henums⟩
  | .enum node :: rest, herrors => by
      rw [schemaErrorsList, List.append_eq_nil_iff] at herrors
      obtain ⟨hmessages, henums⟩ := schemas_carry outer rest herrors.2
      exact ⟨hmessages, .cons (enum_carry node) henums⟩

end

theorem objects_carry (outer : String) {objects : List ObjectNode}
    (h : ∀ object ∈ objects, c.objectErrors object = []) :
    List.Forall₂ (fun n (m : MessageDraft) =>
        Comments.Carry m.comments (.message m.descriptor) (.schema n))
      (objects.map .object) (objects.map (c.objectDraft outer)) := by
  rw [List.forall₂_map_left_iff, List.forall₂_map_right_iff]
  exact List.forall₂_same.mpr fun object hobject => object_carry outer object (h object hobject)

end Conversion

/-! ## Files -/

namespace FileNodes

/-- A draft whose parts carry the descriptions of the nodes of a file. -/
structure CarriedBy (nodes : FileNodes) (d : FileDraft) : Prop where
  messages : List.Forall₂ (fun n (m : MessageDraft) =>
    Comments.Carry m.comments (.message m.descriptor) (.schema n)) nodes.messages d.messages
  enums : List.Forall₂ (fun n (e : EnumDraft) =>
    Comments.Carry e.comments (.enum e.descriptor) (.schema (.enum n))) nodes.enums d.enums
  services : List.Forall₂ (fun n (s : ServiceDraft) =>
    Comments.Carry s.comments (.service s.descriptor) (.service n)) nodes.services d.services

variable {nodes : FileNodes} {d : FileDraft}

theorem CarriedBy.says (h : nodes.CarriedBy d) {path : List Int} {text : String} :
    Comments.Says d.comments path text ↔
      ∃ part node, nodes.Leads d.descriptor path part node ∧ node.Described text := by
  have hmessages : d.descriptor.messages = d.messages.map MessageDraft.descriptor :=
    MessageDraft.descriptors_eq d.messages
  have henums : d.descriptor.enums = d.enums.map EnumDraft.descriptor := rfl
  have hservices : d.descriptor.services = d.services.map ServiceDraft.descriptor := rfl
  simp only [FileDraft.comments_eq, Comments.rows, List.flatMap_cons, List.flatMap_nil,
    List.append_nil, Comments.says_append, Comments.says_items h.messages,
    Comments.says_items h.enums, Comments.says_items h.services, Nat.zero_add]
  constructor
  · rintro (⟨i, n, m, rest, hn, hm, rfl, q, k, hleads, htext⟩ |
      ⟨i, n, m, rest, hn, hm, rfl, q, k, hleads, htext⟩ |
      ⟨i, n, m, rest, hn, hm, rfl, q, k, hleads, htext⟩)
    · exact ⟨q, k, .message (by rw [hmessages, List.getElem?_map, hm]; rfl) hn hleads, htext⟩
    · exact ⟨q, k, .enum (by rw [henums, List.getElem?_map, hm]; rfl) hn hleads, htext⟩
    · exact ⟨q, k, .service (by rw [hservices, List.getElem?_map, hm]; rfl) hn hleads, htext⟩
  · rintro ⟨q, k, hleads, htext⟩
    cases hleads with
    | message element made rest =>
        rw [hmessages, List.getElem?_map] at element
        obtain ⟨m, hm, rfl⟩ := Option.map_eq_some_iff.mp element
        exact .inl ⟨_, _, m, _, made, hm, rfl, q, k, rest, htext⟩
    | enum element made rest =>
        rw [henums, List.getElem?_map] at element
        obtain ⟨e, he, rfl⟩ := Option.map_eq_some_iff.mp element
        exact .inr (.inl ⟨_, _, e, _, made, he, rfl, q, k, rest, htext⟩)
    | service element made rest =>
        rw [hservices, List.getElem?_map] at element
        obtain ⟨s, hs, rfl⟩ := Option.map_eq_some_iff.mp element
        exact .inr (.inr ⟨_, _, s, _, made, hs, rfl, q, k, rest, htext⟩)

theorem CarriedBy.commentedBy (h : nodes.CarriedBy d) : nodes.CommentedBy d.descriptor where
  present := by
    simp only [FileDraft.isSome_locations, h.says]
    constructor
    · rintro ⟨path, text, part, node, hleads, htext⟩
      exact ⟨path, part, node, text, hleads, htext⟩
    · rintro ⟨path, part, node, text, hleads, htext⟩
      exact ⟨path, text, part, node, hleads, htext⟩
  ascending := by
    rw [FileDraft.locations_descriptor]
    exact Comments.ascending_locations d.distinct_comments
  described := by
    intro path leading
    rw [FileDraft.locations_descriptor, Comments.exists_location]
    constructor
    · rintro ⟨text, hsays, rfl⟩
      obtain ⟨part, node, hleads, htext⟩ := h.says.mp hsays
      exact ⟨part, node, text, hleads.part?, hleads, htext, rfl⟩
    · rintro ⟨part, node, text, -, hleads, htext, rfl⟩
      exact ⟨text, h.says.mpr ⟨part, node, hleads, htext⟩, rfl⟩

end FileNodes

namespace Document

variable {d : Document} {r : Resolver} {files : List FileDescriptor}

theorem main_carried (h : d.conversionErrors r = []) (imports : List String) :
    d.mainNodes.CarriedBy
      { d.mainDraft (d.conversion r) (RootNode.schemas d.nodes) with imports } := by
  obtain ⟨hmessages, henums⟩ := Conversion.schemas_carry d.package _ (schemaErrors_of_no_errors h)
  exact ⟨hmessages, henums, .nil⟩

theorem serviceDraft?_carried (h : d.conversionErrors r = []) :
    List.Forall₂ FileNodes.CarriedBy
      (if (RootNode.services d.nodes).isEmpty then [] else [d.serviceNodes])
      (d.serviceDraft? (d.conversion r) (RootNode.services d.nodes)).toList := by
  rw [serviceDraft?]
  split
  · exact .nil
  · refine .cons ⟨?_, .nil, ?_⟩ .nil
    · rw [messages_serviceNodes]
      exact Conversion.objects_carry d.servicePackage
        fun object hobject => (service_objects h object hobject).2.1
    · rw [serviceNodes, List.forall₂_map_left_iff, List.forall₂_map_right_iff]
      exact List.forall₂_same.mpr fun node _ => Conversion.service_carry _ node

theorem topicDraft?_carried (h : d.conversionErrors r = []) :
    List.Forall₂ FileNodes.CarriedBy
      (if (RootNode.topics d.nodes).isEmpty then [] else [d.topicNodes])
      (d.topicDraft? (d.conversion r) (RootNode.topics d.nodes)).toList := by
  rw [topicDraft?]
  split
  · exact .nil
  · refine .cons ⟨?_, .nil, ?_⟩ .nil
    · rw [messages_topicNodes]
      exact Conversion.objects_carry d.topicPackage
        fun object hobject => (topic_objects h object hobject).2.1
    · rw [topicNodes, List.forall₂_map_left_iff, List.forall₂_map_right_iff]
      exact List.forall₂_same.mpr fun node _ => Conversion.topic_carry _ node

/-- The comments of each file stand on the elements whose nodes are described, and say what the
descriptions do. -/
theorem convert_comments (h : d.convert r = .ok files) :
    List.Forall₂ FileNodes.CommentedBy d.fileNodes files := by
  obtain ⟨hnone, rfl⟩ := convert_eq_ok h
  have hdrafts : List.Forall₂ FileNodes.CarriedBy d.fileNodes (d.drafts (d.conversion r) d.nodes) := by
    rw [fileNodes, drafts]
    exact .cons (main_carried hnone _)
      (List.rel_append (serviceDraft?_carried hnone) (topicDraft?_carried hnone))
  rw [List.forall₂_map_right_iff]
  exact hdrafts.imp fun _ _ hcarried => hcarried.commentedBy

theorem convert_comments_archive : ∃ files, archive.convert (TypeTable.resolve {}) = .ok files ∧
    List.Forall₂ FileNodes.CommentedBy archive.fileNodes files ∧
    files.map (fun f => (f.locations.getD []).map fun l => (l.path, l.leading)) =
      [[([4, 0], some " A box.\n"), ([4, 0, 2, 1], some " How large.\n"),
          ([4, 0, 3, 1], some " A paper.\n"), ([4, 0, 4, 0, 2, 1], some " Fits\n a shelf.\n")],
        [([6, 0, 2, 0], some " Opens a box.\n")],
        [([4, 0, 2, 0], some " The box.\n"), ([6, 0], some " News.\n")]] := by
  obtain ⟨files, hconvert⟩ := archive_convert
  have hcomments := convert_comments hconvert
  obtain ⟨-, rfl⟩ := convert_eq_ok hconvert
  refine ⟨_, hconvert, hcomments, ?_⟩
  have hsorted : ∀ draft ∈ archive.drafts (archive.conversion (TypeTable.resolve {})) archive.nodes,
      draft.comments.Pairwise fun a b => Comments.pathLe a.path b.path = true := by
    decide +kernel
  have hlocations : ∀ draft ∈ archive.drafts (archive.conversion (TypeTable.resolve {})) archive.nodes,
      (draft.descriptor.locations.getD []).map (fun l => (l.path, l.leading)) =
        draft.comments.map fun c => (c.path, some (Comment.leadingText c.text)) := by
    intro draft hdraft
    rw [FileDraft.locations_descriptor, Comments.locations,
      List.mergeSort_of_pairwise (hsorted draft hdraft), List.map_map]
    rfl
  rw [List.map_map]
  exact (List.map_congr_left hlocations).trans (by decide +kernel)

end Document
end Schematic
