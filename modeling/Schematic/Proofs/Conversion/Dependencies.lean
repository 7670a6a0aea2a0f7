import Schematic.Proofs.Conversion.Links

/-!
# What a conversion needs of other packages

A summary lists the types of other packages that the fields of a document name.  Apart from these
a conversion asks only for types of its own package, for well-known ones, and for the polymorphs
that objects say they belong to.  Whatever else other packages declare, the document becomes the
same files or has the same errors.
-/

namespace Schematic

/-! ## Memberships -/

mutual

def ObjectNode.memberships : ObjectNode → List String
  | { nested, polymorphMember, .. } => polymorphMember ++ SchemaNode.membershipsList nested

def OneofNode.memberships : OneofNode → List String
  | { nested, .. } => SchemaNode.membershipsList nested

/-- The polymorphs that objects say they belong to, here and further in. -/
def SchemaNode.memberships : SchemaNode → List String
  | .object node => node.memberships
  | .oneof node => node.memberships
  | .enum _ => []
  | .polymorph _ => []

def SchemaNode.membershipsList : List SchemaNode → List String
  | [] => []
  | node :: rest => node.memberships ++ SchemaNode.membershipsList rest

end

def RootNode.memberships : RootNode → List String
  | .schema node => node.memberships
  | .service node => node.objects.flatMap ObjectNode.memberships
  | .topic node => node.objects.flatMap ObjectNode.memberships

def Document.memberships (d : Document) : List String :=
  d.nodes.flatMap RootNode.memberships

/-! ## Where lookups come from -/

namespace Conversion

/-- A name is that of a polymorph in a membership, one that a property names, or one that a kind of
field stands for. -/
def Accounts (memberships : List String) (references : List (RefName × Span)) (t : RefName) : Prop :=
  t ∈ memberships.map polymorphName ∨ t ∈ references.map Prod.fst ∨ t ∈ builtins

theorem Accounts.mono {memberships memberships' : List String}
    {references references' : List (RefName × Span)} {t : RefName}
    (h : Accounts memberships references t) (hmemberships : memberships ⊆ memberships')
    (hreferences : references ⊆ references') : Accounts memberships' references' t :=
  h.imp (fun h => List.map_subset _ hmemberships h) fun h =>
    h.imp (fun h => List.map_subset _ hreferences h) id

end Conversion

open Conversion

theorem FieldNode.target?_of_mem_lookups {f : FieldNode} {t : RefName} (h : t ∈ f.lookups) :
    f.target? = some t ∨ t ∈ builtins := by
  induction f with
  | decimal _ | date _ | timestamp _ | any _ =>
      right
      rw [List.mem_singleton.mp h]
      decide
  | enum target _ _ | object target _ | oneof target | polymorph target =>
      left
      rw [List.mem_singleton.mp h]
      rfl
  | array items _ _ ih | map items _ ih => exact ih h
  | _ => cases h

theorem PropertyNode.accounts {properties : List PropertyNode} {t : RefName}
    (h : t ∈ lookups properties) : Accounts [] (references properties) t := by
  obtain ⟨p, hp, ht⟩ := List.mem_flatMap.mp h
  rcases FieldNode.target?_of_mem_lookups ht with htarget | hbuiltin
  · refine Or.inr (Or.inl (List.mem_map.mpr ⟨(t, p.span), ?_, rfl⟩))
    exact List.mem_filterMap.mpr ⟨p, hp, by rw [htarget]; rfl⟩
  · exact Or.inr (Or.inr hbuiltin)

mutual

theorem ObjectNode.accounts {t : RefName} : (node : ObjectNode) → t ∈ node.lookups →
    Accounts node.memberships node.references t
  | { head, properties, nested, entity, polymorphMember }, h => by
      rw [ObjectNode.lookups, List.mem_append, List.mem_append] at h
      rw [ObjectNode.memberships, ObjectNode.references]
      rcases h with (h | h) | h
      · exact Or.inl (List.map_subset _ (List.subset_append_left _ _) h)
      · exact (PropertyNode.accounts h).mono (List.nil_subset _) (List.subset_append_left _ _)
      · exact (SchemaNode.accounts nested h).mono (List.subset_append_right _ _)
          (List.subset_append_right _ _)

theorem OneofNode.accounts {t : RefName} : (node : OneofNode) → t ∈ node.lookups →
    Accounts node.memberships node.references t
  | { head, properties, nested, entity }, h => by
      rw [OneofNode.lookups, List.mem_append] at h
      rw [OneofNode.memberships, OneofNode.references]
      rcases h with h | h
      · exact (PropertyNode.accounts h).mono (List.nil_subset _) (List.subset_append_left _ _)
      · exact (SchemaNode.accounts nested h).mono (List.Subset.refl _) (List.subset_append_right _ _)

/-- Whatever schemas look up, a membership, a property or a kind of field asks for it. -/
theorem SchemaNode.accounts {t : RefName} : (nodes : List SchemaNode) →
    t ∈ SchemaNode.lookupsList nodes →
      Accounts (SchemaNode.membershipsList nodes) (SchemaNode.referencesList nodes) t
  | .object node :: rest, h => by
      rw [SchemaNode.lookupsList, SchemaNode.lookups, List.mem_append] at h
      rw [SchemaNode.membershipsList, SchemaNode.memberships, SchemaNode.referencesList,
        SchemaNode.references]
      rcases h with h | h
      · exact (ObjectNode.accounts node h).mono (List.subset_append_left _ _)
          (List.subset_append_left _ _)
      · exact (SchemaNode.accounts rest h).mono (List.subset_append_right _ _)
          (List.subset_append_right _ _)
  | .oneof node :: rest, h => by
      rw [SchemaNode.lookupsList, SchemaNode.lookups, List.mem_append] at h
      rw [SchemaNode.membershipsList, SchemaNode.memberships, SchemaNode.referencesList,
        SchemaNode.references]
      rcases h with h | h
      · exact (OneofNode.accounts node h).mono (List.subset_append_left _ _)
          (List.subset_append_left _ _)
      · exact (SchemaNode.accounts rest h).mono (List.subset_append_right _ _)
          (List.subset_append_right _ _)
  | .enum node :: rest, h => SchemaNode.accounts rest h
  | .polymorph node :: rest, h => SchemaNode.accounts rest h

end

theorem RootNode.accounts {node : RootNode} {t : RefName} (h : t ∈ node.lookups) :
    Accounts node.memberships node.references t := by
  have hobjects : ∀ objects : List ObjectNode, t ∈ objects.flatMap ObjectNode.lookups →
      Accounts (objects.flatMap ObjectNode.memberships) (objects.flatMap ObjectNode.references) t := by
    intro objects h
    obtain ⟨object, hobject, h⟩ := List.mem_flatMap.mp h
    exact (ObjectNode.accounts object h).mono (fun _ => List.mem_flatMap_of_mem hobject)
      fun _ => List.mem_flatMap_of_mem hobject
  cases node with
  | service node => exact hobjects node.objects h
  | topic node => exact hobjects node.objects h
  | schema node =>
      have hlist := SchemaNode.accounts (t := t) [node]
      simp only [SchemaNode.lookupsList, SchemaNode.membershipsList, SchemaNode.referencesList,
        List.append_nil] at hlist
      exact hlist h

/-! ## Dependencies -/

/-- Dependencies that count as equal are on the same type. -/
theorem TypeDependency.eq_of_not_lt {a b : TypeDependency} (hab : lt a b = false)
    (hba : lt b a = false) : a.package = b.package ∧ a.schema = b.schema := by
  have hpackage : ¬ a.package < b.package ∧ ¬ b.package < a.package := by
    constructor <;> intro hlt <;> simp [lt, hlt] at hab hba
  have hsame := String.le_antisymm (String.not_lt.mp hpackage.2) (String.not_lt.mp hpackage.1)
  have hschema : ¬ a.schema < b.schema ∧ ¬ b.schema < a.schema := by
    constructor <;> intro hlt <;> simp [lt, hsame, hlt] at hab hba
  exact ⟨hsame, String.le_antisymm (String.not_lt.mp hschema.2) (String.not_lt.mp hschema.1)⟩

namespace Document

variable {d : Document}

theorem accounts_of_mem_lookups {t : RefName} (h : t ∈ d.lookups) :
    Accounts d.memberships (d.nodes.flatMap RootNode.references) t := by
  obtain ⟨node, hnode, h⟩ := List.mem_flatMap.mp h
  exact (RootNode.accounts h).mono (fun _ => List.mem_flatMap_of_mem hnode)
    fun _ => List.mem_flatMap_of_mem hnode

/-- A type that a property names is of the document's own package, of a well-known package, or a
dependency. -/
theorem covered_of_mem_references {t : RefName} {span : Span}
    (h : (t, span) ∈ d.nodes.flatMap RootNode.references) :
    d.packageOf t = d.package ∨ WellKnown.isPackage (d.packageOf t) = true ∨
      ∃ dep ∈ (d.summaryOf d.nodes).typeDependencies,
        dep.package = d.packageOf t ∧ dep.schema = t.schema := by
  cases hqualifier : t.package with
  | none => exact Or.inl (by rw [packageOf, hqualifier])
  | some qualifier =>
      have hpackage : d.packageOf t = d.scope.expand qualifier := by rw [packageOf, hqualifier]
      by_cases hcounts : d.packageOf t = d.package ∨ WellKnown.isPackage (d.packageOf t) = true
      · exact hcounts.imp id Or.inl
      · have hdependency : d.dependency? t span = some ⟨d.packageOf t, t.schema, span⟩ := by
          rw [dependency?, hqualifier, Option.bind_some, ← hpackage, if_neg (by simpa using hcounts)]
        have hmem : ⟨d.packageOf t, t.schema, span⟩ ∈ (d.nodes.flatMap RootNode.references).filterMap
            fun reference => d.dependency? reference.1 reference.2 :=
          List.mem_filterMap.mpr ⟨(t, span), h, hdependency⟩
        obtain ⟨dep, hdep, heq⟩ := Sorted.exists_mem_ofList hmem
        refine Or.inr (Or.inr ⟨dep, hdep, ?_⟩)
        rcases heq with rfl | ⟨hlt, hgt⟩
        · exact ⟨rfl, rfl⟩
        · exact TypeDependency.eq_of_not_lt hgt hlt

/-- Resolvers that answer alike for the document's own package, for well-known packages, for the
dependencies that the summary lists and for memberships give the same files or the same errors. -/
theorem convert_determined {d : Document} {summary : Summary} {r r' : Resolver}
    (hsummary : d.summary = .ok summary) (haliases : d.PlainAliases)
    (hown : ∀ name, r d.package name = r' d.package name)
    (hwellKnown : ∀ package name, WellKnown.isPackage package = true →
      r package name = r' package name)
    (hdependencies : ∀ dep ∈ summary.typeDependencies,
      r dep.package dep.schema = r' dep.package dep.schema)
    (hmemberships : ∀ polymorph ∈ d.memberships,
      r (d.packageOf (polymorphName polymorph)) (polymorphName polymorph).schema =
        r' (d.packageOf (polymorphName polymorph)) (polymorphName polymorph).schema) :
    d.convert r = d.convert r' := by
  have hsum : summary = d.summaryOf d.nodes := by
    rw [Document.summary] at hsummary
    split at hsummary <;> cases hsummary
    rfl
  subst hsum
  refine (convert_congr fun t ht => lookup_congr fun hnone => ?_).symm
  show r' (d.packageOf t) t.schema = r (d.packageOf t) t.schema
  rcases accounts_of_mem_lookups ht with hmember | href | hbuiltin
  · obtain ⟨polymorph, hpolymorph, rfl⟩ := List.mem_map.mp hmember
    exact (hmemberships polymorph hpolymorph).symm
  · obtain ⟨⟨target, span⟩, hmem, rfl⟩ := List.mem_map.mp href
    rcases covered_of_mem_references hmem with hpackage | hpackage | ⟨dep, hdep, hpackage, hschema⟩
    · rw [hpackage]
      exact (hown _).symm
    · exact (hwellKnown _ _ hpackage).symm
    · rw [← hpackage, ← hschema]
      exact (hdependencies dep hdep).symm
  · obtain ⟨entry, -, -, -, -, htype⟩ := wellKnown_of_builtin haliases hbuiltin
    have hsome : WellKnown.type? (d.packageOf t) t.schema = none := (Option.or_eq_none_iff.mp hnone).2
    rw [htype] at hsome
    cases hsome

/-- A parcel is one of the things of another package, and its items are of a third. -/
def parcels : Document where
  path := "a/v1/a.j5s"
  package := "a.v1"
  imports := [{ package := some "b.v1", localName := some "stock" }]
  elements :=
    [.object { name := "Parcel", polymorphMember := ["c.v1.Thing"], properties :=
        [{ name := "items", schema := .array (.object (.named ⟨some "stock", "Item"⟩) false) {} none },
         { name := "sentAt", schema := .timestamp none }] },
     .service { name := some "Parcels", methods := [{ name := "Send", request :=
        [{ name := "kind", schema := .oneof (.named ⟨some "b.v1", "Kind"⟩) }] }] }]

def parcelTypes : TypeTable :=
  ⟨[⟨"b.v1", "Item", "b/v1/b.proto", .object none⟩, ⟨"b.v1", "Kind", "b/v1/b.proto", .oneof⟩,
    ⟨"c.v1", "Thing", "c/v1/c.proto", .polymorph ["a.v1.Parcel"]⟩]⟩

/-- The same types and one more, of a package that the parcels need. -/
def moreParcelTypes : Resolver := fun package name =>
  if package = "b.v1" ∧ name = "Box" then .ok ⟨"b.v1", "Box", "b/v1/b.proto", .oneof⟩
  else parcelTypes.resolve package name

theorem convert_determined_parcels :
    (∃ summary, parcels.summary = .ok summary ∧
      summary.typeDependencies.map (fun dep => (dep.package, dep.schema)) =
        [("b.v1", "Item"), ("b.v1", "Kind")]) ∧
      parcels.memberships = ["c.v1.Thing"] ∧
      parcelTypes.resolve "b.v1" "Box" ≠ moreParcelTypes "b.v1" "Box" ∧
      (∃ files, parcels.convert parcelTypes.resolve = .ok files) ∧
      parcels.convert parcelTypes.resolve = parcels.convert moreParcelTypes := by
  have hsummary : parcels.summary = .ok (parcels.summaryOf parcels.nodes) := by
    have hnone : parcels.reachErrors.isEmpty = true := by decide +kernel
    rw [summary, if_pos hnone]
  have hdeps : (parcels.summaryOf parcels.nodes).typeDependencies.map
      (fun dep => (dep.package, dep.schema)) = [("b.v1", "Item"), ("b.v1", "Kind")] := by
    decide +kernel
  have hmembers : parcels.memberships = ["c.v1.Thing"] := by decide +kernel
  have haliases : parcels.PlainAliases := by
    intro i hi name hname
    rw [List.mem_singleton.mp hi] at hname
    cases hname
    decide
  have hsame : ∀ package name, ¬ (package = "b.v1" ∧ name = "Box") →
      parcelTypes.resolve package name = moreParcelTypes package name :=
    fun _ _ h => (if_neg h).symm
  refine ⟨⟨_, hsummary, hdeps⟩, hmembers, ?_, ?_, ?_⟩
  · rw [moreParcelTypes, if_pos ⟨rfl, rfl⟩]
    intro h
    cases h
  · exact exists_convert (by decide +kernel)
  · refine convert_determined hsummary haliases (fun name => hsame _ _ ?_)
      (fun package name hpackage => hsame _ _ ?_) (fun dep hdep => hsame _ _ ?_)
      fun polymorph hpolymorph => hsame _ _ ?_
    · exact fun h => absurd h.1 (by decide)
    · rintro ⟨rfl, -⟩
      exact absurd hpackage (by decide)
    · have hmem := List.mem_map_of_mem (f := fun dep => (dep.package, dep.schema)) hdep
      rw [hdeps] at hmem
      rintro ⟨-, hschema⟩
      simp [hschema] at hmem
    · rw [hmembers, List.mem_singleton] at hpolymorph
      rw [hpolymorph]
      decide +kernel

end Document
end Schematic
