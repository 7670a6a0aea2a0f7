import Schematic.Proofs.Conversion.Diagnostics
import Schematic.Proofs.Conversion.Messages
import Schematic.Proofs.Text.Cut

/-!
# Membership in polymorphs

An object that calls itself a member of a polymorph at the top of its own package is refused exactly if the
polymorph does not list it.  The full name of a polymorph is cut at its last dot, and what stands before is
taken for a package.  So a polymorph nested in another schema is looked for in a package that bears the name
of that schema, and never found in the document.
-/

namespace Schematic

/-! ## Full names -/

theorem Conversion.polymorphName_dot (package : String) {name : String} (h : '.' ∉ name.toList) :
    polymorphName (package ++ "." ++ name) = ⟨some package, name⟩ := by
  rw [polymorphName, Text.cutLast?_dot package h]

/-- Whether an object is a member is up to the list of the polymorph. -/
theorem Conversion.fault_checkMember {c : Conversion} {head : Head} {polymorph : String}
    {found : TypeRef} (hfound : c.lookup (polymorphName polymorph) = .ok found) {members : List String}
    (hkind : found.kind = .polymorph members) : faultOf (c.checkMember head polymorph) =
      if c.package ++ "." ++ head.nameInPackage ∈ members then none
      else some (.notPolymorphMember (c.package ++ "." ++ head.nameInPackage) found.fullName) := by
  rw [checkMember, bind_of_ok hfound, hkind]
  simp only [List.contains_iff_mem]
  split_ifs
  · rfl
  · rfl

/-! ## Sites of memberships -/

mutual

theorem ObjectNode.member_mem_sites {object : ObjectNode} {polymorph : String}
    (hentry : polymorph ∈ object.polymorphMember) : (node : ObjectNode) →
    .object object ∈ node.within → .member object.head polymorph ∈ node.sites
  | { head, properties, nested, entity, polymorphMember }, h => by
      rw [ObjectNode.within] at h
      rw [ObjectNode.sites]
      rcases List.mem_cons.mp h with hself | h
      · cases hself
        exact List.mem_append_left _ (List.mem_append_left _ (List.mem_map_of_mem hentry))
      · exact List.mem_append_right _ (SchemaNode.member_mem_sitesList hentry nested h)

theorem OneofNode.member_mem_sites {object : ObjectNode} {polymorph : String}
    (hentry : polymorph ∈ object.polymorphMember) : (node : OneofNode) →
    .object object ∈ node.within → .member object.head polymorph ∈ node.sites
  | { head, properties, nested, entity }, h => by
      rw [OneofNode.within] at h
      rw [OneofNode.sites]
      rcases List.mem_cons.mp h with hself | h
      · cases hself
      · exact List.mem_append_right _ (SchemaNode.member_mem_sitesList hentry nested h)

theorem SchemaNode.member_mem_sitesList {object : ObjectNode} {polymorph : String}
    (hentry : polymorph ∈ object.polymorphMember) : (nodes : List SchemaNode) →
    .object object ∈ SchemaNode.withinList nodes →
      .member object.head polymorph ∈ SchemaNode.sitesList nodes
  | [], h => absurd h List.not_mem_nil
  | .object node :: rest, h => by
      rw [SchemaNode.sitesList, SchemaNode.sites]
      exact (List.mem_append.mp h).elim
        (fun h => List.mem_append_left _ (ObjectNode.member_mem_sites hentry node h))
        (fun h => List.mem_append_right _ (SchemaNode.member_mem_sitesList hentry rest h))
  | .oneof node :: rest, h => by
      rw [SchemaNode.sitesList, SchemaNode.sites]
      exact (List.mem_append.mp h).elim
        (fun h => List.mem_append_left _ (OneofNode.member_mem_sites hentry node h))
        (fun h => List.mem_append_right _ (SchemaNode.member_mem_sitesList hentry rest h))
  | .polymorph node :: rest, h => by
      rw [SchemaNode.withinList] at h
      rcases List.mem_cons.mp h with hself | h
      · cases hself
      · exact SchemaNode.member_mem_sitesList hentry rest h
  | .enum node :: rest, h => SchemaNode.member_mem_sitesList hentry rest h

end

theorem SchemaNode.sitesList_eq (nodes : List SchemaNode) : sitesList nodes = nodes.flatMap sites := by
  induction nodes with
  | nil => rfl
  | cons node rest ih => rw [sitesList, ih, List.flatMap_cons]

namespace Document

variable {d : Document} {r : Resolver} {t : TypeRef} {members : List String}

/-- An object of the main package, at any depth, that a walk comes by. -/
def Passes (d : Document) (object : ObjectNode) : Prop :=
  ∃ roots, .ok roots ∈ d.reach ∧ .object object ∈ SchemaNode.withinList (RootNode.schemas roots)

theorem Passes.member_mem_sites {object : ObjectNode} (h : d.Passes object) {polymorph : String}
    (hentry : polymorph ∈ object.polymorphMember) : .member object.head polymorph ∈ d.sites := by
  obtain ⟨roots, hroots, hobject⟩ := h
  have hsite := SchemaNode.member_mem_sitesList hentry _ hobject
  rw [SchemaNode.sitesList_eq] at hsite
  obtain ⟨node, hnode, hsite⟩ := List.mem_flatMap.mp hsite
  exact List.mem_flatMap.mpr
    ⟨_, hroots, List.mem_flatMap.mpr ⟨.schema node, RootNode.mem_schemas.mp hnode, hsite⟩⟩

/-! ## Looking up polymorphs -/

theorem packageOf_of_no_imports (himports : d.imports = []) (package name : String) :
    (d.conversion r).packageOf ⟨some package, name⟩ = package := by
  show d.scope.expand package = package
  rw [scope, himports]
  rfl

/-- Whatever is declared for a method or a topic has a dot in its name unless it is an object. -/
theorem mem_mainTypes_of_plain (ht : t ∈ d.types) (hkind : t.kind = .polymorph members)
    (hplain : '.' ∉ t.name.toList) : t ∈ d.mainTypes := by
  rcases List.mem_append.mp ht with ht | ht
  · obtain ⟨root, hroot, ht⟩ := List.mem_flatMap.mp ht
    have hstands := d.nodes_stand root hroot
    have hobject : ∀ {object : ObjectNode} {package file : String}, object.StandsIn [] →
        t ∈ object.declared package file → t ∈ d.mainTypes := by
      intro object package file hstands ht
      rw [object.eq_of_declared hstands ht hplain] at hkind
      cases hkind
    cases root with
    | schema node => cases ht
    | service node =>
        obtain ⟨object, hmem, ht⟩ := List.mem_flatMap.mp ht
        exact hobject (hstands object hmem) ht
    | topic node =>
        obtain ⟨object, hmem, ht⟩ := List.mem_flatMap.mp ht
        exact hobject (hstands.2 object hmem) ht
  · exact ht

/-- If no two schemas have one name, each is found under its own. -/
theorem declared_of_mem_mainTypes (hnames : (d.mainTypes.map TypeRef.name).Nodup)
    (ht : t ∈ d.mainTypes) : d.declared.get? t.name = some t := by
  have hkey : t.name ∈ (d.types.map fun t => (t.name, t)).map Prod.fst := by
    rw [List.map_map]
    exact List.mem_map_of_mem (f := TypeRef.name) (List.mem_append_right _ ht)
  obtain ⟨found, hfound⟩ : ∃ found, d.declared.get? t.name = some found := Dict.exists_get?_ofList hkey
  obtain ⟨hmem, hname⟩ := mem_types_of_declared hfound
  have hmain := mem_mainTypes hmem (package_of_declared hfound ht rfl)
  rw [hfound, List.inj_on_of_nodup_map hnames hmain ht hname]

theorem lookup_plain (himports : d.imports = []) (hnames : (d.mainTypes.map TypeRef.name).Nodup)
    (ht : t ∈ d.mainTypes) : (d.conversion r).lookup ⟨some d.package, t.name⟩ = .ok t := by
  have hpackage : (d.conversion r).packageOf ⟨some d.package, t.name⟩ = (d.conversion r).package :=
    packageOf_of_no_imports himports ..
  have hfound : (d.conversion r).declared.get? t.name = some t := declared_of_mem_mainTypes hnames ht
  have hknown : (d.conversion r).known? ⟨some d.package, t.name⟩ = some t := by
    rw [Conversion.known?, if_pos hpackage, hfound, Option.some_or]
  rw [Conversion.lookup_eq, hknown]

theorem length_package_le (ht : t ∈ d.types) : d.package.length ≤ t.package.length := by
  have hsub : ∀ folder, d.package.length ≤ (FileName.subPackage d.package folder).length := by
    intro folder
    rw [FileName.subPackage, String.length_append, String.length_append]
    omega
  rcases List.mem_append.mp ht with ht | ht
  · rcases package_of_mem_payloadTypes ht with h | h
    · rw [h]
      exact hsub _
    · rw [h]
      exact hsub _
  · exact Nat.le_of_eq (by rw [package_of_mem_mainTypes ht])

/-- The names of the schemas around a nested one are taken for the end of its package, in which the
document declares nothing. -/
theorem lookup_nested (himports : d.imports = []) (ht : t ∈ d.types) {outer last : String}
    (hbuiltin : WellKnown.type? (t.package ++ "." ++ outer) last = none) :
    (d.conversion r).lookup ⟨some (t.package ++ "." ++ outer), last⟩ =
      (r (t.package ++ "." ++ outer) last).mapError .unresolved := by
  have hpackage : (d.conversion r).packageOf ⟨some (t.package ++ "." ++ outer), last⟩ =
      t.package ++ "." ++ outer :=
    packageOf_of_no_imports himports ..
  have hother : t.package ++ "." ++ outer ≠ (d.conversion r).package := by
    intro heq
    -- With a dot behind it the package of the type is longer than that of the document.
    have hlength := congrArg String.length heq
    rw [String.length_append, String.length_append] at hlength
    have hle : (d.conversion r).package.length ≤ t.package.length := length_package_le ht
    have hdot : ".".length = 1 := rfl
    omega
  have hknown : (d.conversion r).known? ⟨some (t.package ++ "." ++ outer), last⟩ = none := by
    rw [Conversion.known?, hpackage, if_neg hother, Option.none_or]
    exact hbuiltin
  rw [Conversion.lookup_eq, hknown, hpackage]
  rfl

/-- In a document without imports and with a name of its own for each schema, the membership of an object
in a polymorph of the document is judged by whether the polymorph lists the object, as long as the name of
the polymorph has no dot.  A polymorph that is nested in another schema is looked for outside of the
document, and where it is not found the object is refused, listed or not. -/
theorem convert_checks_members (himports : d.imports = [])
    (hnames : (d.mainTypes.map TypeRef.name).Nodup) (ht : t ∈ d.types)
    (hkind : t.kind = .polymorph members) {object : ObjectNode} (hobject : d.Passes object)
    (hentry : t.package ++ "." ++ t.name ∈ object.polymorphMember) (r : Resolver) :
    let site := Site.member object.head (t.package ++ "." ++ t.name)
    let own := d.package ++ "." ++ object.head.nameInPackage
    site ∈ d.sites ∧ d.Returns r (d.sites.filterMap (d.conversion r).diagnose) ∧
    ('.' ∉ t.name.toList → (d.conversion r).cause? site =
      if own ∈ members then none else some (.unconvertible (.notPolymorphMember own t.fullName))) ∧
    ∀ outer last cause, t.name = outer ++ "." ++ last → '.' ∉ last.toList →
      WellKnown.type? (t.package ++ "." ++ outer) last = none →
      r (t.package ++ "." ++ outer) last = .error cause →
      (d.conversion r).cause? site = some (.unconvertible (.unresolved cause)) := by
  refine ⟨hobject.member_mem_sites hentry, ?_, fun hplain => ?_,
    fun outer last cause hname hplain hbuiltin hcause => ?_⟩
  · rw [← conversionErrors_eq]
    exact d.returns_conversionErrors r
  · have hmain := mem_mainTypes_of_plain ht hkind hplain
    have hfound : (d.conversion r).lookup (Conversion.polymorphName (t.package ++ "." ++ t.name)) =
        .ok t := by
      rw [Conversion.polymorphName_dot _ hplain, package_of_mem_mainTypes hmain]
      exact lookup_plain himports hnames hmain
    rw [Conversion.cause?, Conversion.fault_checkMember hfound hkind]
    exact apply_ite (Option.map SourceError.unconvertible) _ _ _
  · -- The dot before `last` is the one at which the name is cut.
    have hsplit : t.package ++ "." ++ t.name = t.package ++ "." ++ outer ++ "." ++ last := by
      rw [hname]
      simp only [String.append_assoc]
    rw [Conversion.cause?, hsplit, Conversion.checkMember, Conversion.polymorphName_dot _ hplain,
      lookup_nested himports ht hbuiltin, hcause]
    rfl

/-- Two objects that call themselves members of a polymorph. -/
def zooOf (top : List Element) (inner : List Declaration) (entry : String) : Document where
  path := "zoo/v1/zoo.j5s"
  package := "zoo.v1"
  elements := [
    .object
      { name := "Cage"
        schemas := .object { name := "Lion", polymorphMember := [entry] } :: inner },
    .object { name := "Stone", polymorphMember := [entry] }] ++ top

/-- The polymorph lists the object that is nested in another. -/
def zoo.animal : PolymorphDecl where
  name := "Animal"
  members := ["zoo.v1.Cage.Lion"]

def zoo : Document := zooOf [.polymorph zoo.animal] [] "zoo.v1.Animal"

def nestedZoo : Document := zooOf [] [.polymorph zoo.animal] "zoo.v1.Cage.Animal"

def zoo.lion (entry : String) : ObjectNode where
  head := { name := "Lion", nest := ["Cage"], file := "zoo/v1/zoo.j5s" }
  polymorphMember := [entry]

def zoo.stone (entry : String) : ObjectNode where
  head := { name := "Stone", file := "zoo/v1/zoo.j5s" }
  polymorphMember := [entry]

theorem convert_checks_members_zoo :
    zoo.Passes (zoo.lion "zoo.v1.Animal") ∧ zoo.Passes (zoo.stone "zoo.v1.Animal") ∧
    (zoo.conversion (TypeTable.resolve {})).cause?
      (.member (zoo.lion "zoo.v1.Animal").head "zoo.v1.Animal") = none ∧
    (zoo.conversion (TypeTable.resolve {})).cause?
      (.member (zoo.stone "zoo.v1.Animal").head "zoo.v1.Animal") =
        some (.unconvertible (.notPolymorphMember "zoo.v1.Stone" "zoo.v1.Animal")) := by
  have hlion : zoo.Passes (zoo.lion "zoo.v1.Animal") :=
    ⟨_, List.mem_of_getElem? (i := 0) rfl, List.mem_of_getElem? (i := 1) rfl⟩
  have hstone : zoo.Passes (zoo.stone "zoo.v1.Animal") :=
    ⟨_, List.mem_of_getElem? (i := 1) rfl, List.mem_of_getElem? (i := 0) rfl⟩
  have hnames : (zoo.mainTypes.map TypeRef.name).Nodup := by decide +kernel
  have htype : ⟨"zoo.v1", "Animal", "zoo/v1/zoo.j5s.proto", .polymorph ["zoo.v1.Cage.Lion"]⟩ ∈
      zoo.types := by decide +kernel
  obtain ⟨-, -, hjudged, -⟩ := convert_checks_members rfl hnames htype rfl hlion
    List.mem_cons_self (TypeTable.resolve {})
  obtain ⟨-, -, hjudged', -⟩ := convert_checks_members rfl hnames htype rfl hstone
    List.mem_cons_self (TypeTable.resolve {})
  exact ⟨hlion, hstone, hjudged (by decide), hjudged' (by decide)⟩

/-- An object that a nested polymorph lists is refused for want of a package. -/
theorem convert_refuses_nested_zoo :
    nestedZoo.Passes (zoo.lion "zoo.v1.Cage.Animal") ∧
    ⟨"zoo.v1", "Cage.Animal", "zoo/v1/zoo.j5s.proto", .polymorph ["zoo.v1.Cage.Lion"]⟩ ∈
      nestedZoo.types ∧
    (nestedZoo.conversion (TypeTable.resolve {})).cause?
      (.member (zoo.lion "zoo.v1.Cage.Animal").head "zoo.v1.Cage.Animal") =
        some (.unconvertible (.unresolved (.packageNotFound "zoo.v1.Cage"))) ∧
    ∃ errors, nestedZoo.convert (TypeTable.resolve {}) = .error errors :=
  ⟨⟨_, List.mem_of_getElem? (i := 0) rfl, List.mem_of_getElem? (i := 1) rfl⟩, by decide +kernel,
    by decide +kernel, _, rfl⟩

end Document
end Schematic
