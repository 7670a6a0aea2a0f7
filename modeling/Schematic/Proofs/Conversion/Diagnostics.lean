import Schematic.Proofs.Conversion.Lookup
import Schematic.Proofs.Node.Named

/-!
# Errors, one by one

The errors of a conversion are those of the elements that cannot be built and, for each node, those of its
memberships, its properties and what is nested in it, in the order of a walk.  Each is found without regard
to the others: it comes from one element, one membership or one property and from what their names stand
for.
-/

namespace Schematic

/-! ## Sites -/

/-- What can be wrong in a document: an element, the membership of an object in a polymorph, or a
property. -/
inductive Site where
  | element (error : NodeError)
  | member (head : Head) (polymorph : String)
  | property (p : PropertyNode)

namespace Site

/-- Where an error of the site is reported. -/
def place (file : String) : Site → Place
  | .element e => e.place
  | .member head _ => ⟨file, head.span⟩
  | .property p => ⟨file, p.span⟩

/-- The names that the site looks up. -/
def lookups : Site → List RefName
  | .element _ => []
  | .member _ polymorph => [Conversion.polymorphName polymorph]
  | .property p => p.field.lookups

/-- The site at another place, where a property can have another number. -/
def moved (number : Int) (span : Span) : Site → Site
  | .element e => .element e
  | .member head polymorph => .member { head with span } polymorph
  | .property p => .property { p with number, span }

end Site

mutual

def ObjectNode.sites : ObjectNode → List Site
  | { head, properties, nested, polymorphMember, .. } =>
    polymorphMember.map (.member head) ++ properties.map .property ++ SchemaNode.sitesList nested

def OneofNode.sites : OneofNode → List Site
  | { properties, nested, .. } => properties.map .property ++ SchemaNode.sitesList nested

/-- The sites of a schema, those of its own before those of what is nested in it. -/
def SchemaNode.sites : SchemaNode → List Site
  | .object node => node.sites
  | .oneof node => node.sites
  | .enum _ => []
  | .polymorph _ => []

def SchemaNode.sitesList : List SchemaNode → List Site
  | [] => []
  | node :: rest => node.sites ++ SchemaNode.sitesList rest

end

def RootNode.sites : RootNode → List Site
  | .schema node => node.sites
  | .service node => node.objects.flatMap ObjectNode.sites
  | .topic node => node.objects.flatMap ObjectNode.sites

def Site.ofOutcome : Except NodeError (List RootNode) → List Site
  | .ok nodes => nodes.flatMap RootNode.sites
  | .error e => [.element e]

/-- The sites that a walk comes by. -/
def Document.sites (d : Document) : List Site :=
  d.reach.flatMap Site.ofOutcome

/-! ## The walk -/

/-- Without a fatal error a walk comes by everything. -/
theorem NodeError.upToFatal_of_none {α : Type} {outcomes : List (Except NodeError α)}
    (h : ∀ e, .error e ∈ outcomes → e.isFatal = false) : upToFatal outcomes = outcomes := by
  induction outcomes with
  | nil => rfl
  | cons outcome rest ih =>
      have hrest := ih fun e he => h e (List.mem_cons_of_mem _ he)
      cases outcome with
      | ok a => rw [upToFatal, hrest]
      | error e => rw [upToFatal, h e List.mem_cons_self, if_neg Bool.false_ne_true, hrest]

section

variable {m : Type → Type} [Monad m] [MonadExceptOf NodeError m] {v : Visitor m}

/-- Nothing is visited past a fatal error. -/
theorem Visitor.forM_upToFatal (hthrow : ∀ (e : NodeError) (x : m Unit), (do throw e; x) = throw e)
    (outcomes : List (Except NodeError (List RootNode))) :
    forM (NodeError.upToFatal outcomes) v.outcome = forM outcomes v.outcome := by
  induction outcomes with
  | nil => rfl
  | cons outcome rest ih =>
      cases outcome with
      | ok roots => rw [NodeError.upToFatal, List.forM_cons, List.forM_cons, ih]
      | error e =>
          rw [NodeError.upToFatal, List.forM_cons, List.forM_cons, Visitor.outcome]
          by_cases hfatal : e.isFatal = true
          · rw [if_pos hfatal, hthrow, hthrow]
          · rw [if_neg hfatal, if_neg hfatal, ih]

/-- Where every element can be built, the nodes are visited one after the other. -/
theorem Visitor.forM_of_ok [LawfulMonad m] {outcomes : List (Except NodeError (List RootNode))}
    (h : ∀ e, .error e ∉ outcomes) : forM outcomes v.outcome =
      forM (outcomes.flatMap fun
        | .ok nodes => nodes
        | .error _ => []) v.root := by
  induction outcomes with
  | nil => rfl
  | cons outcome rest ih =>
      cases outcome with
      | ok roots =>
          rw [List.forM_cons, List.flatMap_cons, List.forM_append,
            ih fun e he => h e (List.mem_cons_of_mem _ he)]
          rfl
      | error e => exact absurd List.mem_cons_self (h e)

/-- Whoever walks through a document meets what its summary and its files are made from: as far as the
first fatal error, each outcome, and where there is a summary, each node. -/
theorem Document.walk_eq [LawfulMonad m]
    (hthrow : ∀ (e : NodeError) (x : m Unit), (do throw e; x) = throw e) (d : Document) :
    d.walk v = forM d.reach v.outcome ∧ (d.reachErrors = [] → d.walk v = forM d.nodes v.root) := by
  have hreach : d.walk v = forM d.reach v.outcome := (Visitor.forM_upToFatal hthrow d.outcomes).symm
  refine ⟨hreach, fun hnone => ?_⟩
  have hok : ∀ e, .error e ∉ d.reach := by
    intro e he
    have hmem : e ∈ d.reachErrors := List.mem_filterMap.mpr ⟨_, he, rfl⟩
    rw [hnone] at hmem
    cases hmem
  rw [reach, NodeError.upToFatal_of_ok hok] at hok
  exact Visitor.forM_of_ok hok

end

/-- Writes down the sites of each node. -/
def Site.collector : Visitor (StateT (List Site) (Except NodeError)) where
  object node := modify (· ++ node.sites)
  oneof node := modify (· ++ node.sites)
  service node := modify (· ++ (RootNode.service node).sites)
  topic node := modify (· ++ (RootNode.topic node).sites)
  malformed e := modify (· ++ [.element e])

namespace Site

theorem collector_root (root : RootNode) (log : List Site) :
    (collector.root root).run log = .ok ((), log ++ root.sites) := by
  cases root with
  | schema node =>
      cases node with
      | object node => rfl
      | oneof node => rfl
      | enum node =>
          rw [RootNode.sites, SchemaNode.sites, List.append_nil]
          rfl
      | polymorph node =>
          rw [RootNode.sites, SchemaNode.sites, List.append_nil]
          rfl
  | service node => rfl
  | topic node => rfl

/-- What each item writes down, a list of items writes down in turn. -/
theorem run_forM {α : Type} {f : α → StateT (List Site) (Except NodeError) Unit} {g : α → List Site}
    {l : List α} (h : ∀ a ∈ l, ∀ log, (f a).run log = .ok ((), log ++ g a)) (log : List Site) :
    (forM l f).run log = .ok ((), log ++ l.flatMap g) := by
  induction l generalizing log with
  | nil =>
      rw [List.flatMap_nil, List.append_nil]
      rfl
  | cons a rest ih =>
      rw [List.forM_cons, StateT.run_bind, bind_of_ok (h a List.mem_cons_self log),
        ih fun b hb => h b (List.mem_cons_of_mem _ hb), List.flatMap_cons, List.append_assoc]

theorem collector_outcome {outcome : Except NodeError (List RootNode)}
    (h : ∀ e, outcome = .error e → e.isFatal = false) (log : List Site) :
    (collector.outcome outcome).run log = .ok ((), log ++ ofOutcome outcome) := by
  cases outcome with
  | ok roots => exact run_forM (fun root _ => collector_root root) log
  | error e =>
      have hgoes : ¬ e.isFatal = true := by
        rw [h e rfl]
        exact Bool.false_ne_true
      rw [Visitor.outcome, if_neg hgoes]
      rfl

end Site

/-! ## Faults -/

/-- The error of what failed. -/
def faultOf {ε α : Type} : Except ε α → Option ε
  | .ok _ => none
  | .error e => some e

namespace Conversion

variable {c : Conversion}

/-- What is wrong at a site, if anything is. -/
def cause? (c : Conversion) : Site → Option SourceError
  | .element e => some (.malformed e)
  | .member head polymorph => (faultOf (c.checkMember head polymorph)).map .unconvertible
  | .property p => (faultOf (c.property "" none p)).map .unconvertible

/-- The error of a site, at its place. -/
def diagnose (c : Conversion) (site : Site) : Option (Diagnostic SourceError) :=
  (c.cause? site).map fun cause => { place := some (site.place c.path), cause }

/-- Neither the message nor the number nor the place of a property matters to which enum it refers to or
to what is wrong with its type. -/
theorem layout_enum (c : Conversion) (message message' : String) (p : PropertyNode) (number : Int)
    (span : Span) : (c.layout message { p with number, span }).map Layout.enum =
      (c.layout message' p).map Layout.enum := by
  unfold layout
  dsimp only
  cases p.field with
  | map items rules =>
      dsimp only
      split
      · rfl
      · cases c.itemType p.name "map" items with
        | ok value => rfl
        | error e => rfl
  | array items rules singleForm =>
      dsimp only
      split
      · rfl
      · cases c.itemType p.name "array" items with
        | ok value => rfl
        | error e => rfl
  | _ =>
      dsimp only
      cases c.valueType p.name _ with
      | ok value => rfl
      | error e => rfl

theorem fault_property (c : Conversion) (message : String) (oneof : Option Int) (p : PropertyNode) :
    faultOf (c.property message oneof p) =
      if p.required && p.optional then some (.requiredAndOptional p.name)
      else faultOf ((c.layout message p).map Layout.enum >>= fieldOptions p) := by
  rw [property]
  split
  · rfl
  · cases c.layout message p with
    | error e => rfl
    | ok l =>
        show faultOf (fieldOptions p l.enum >>= _) = faultOf (fieldOptions p l.enum)
        cases fieldOptions p l.enum with
        | error e => rfl
        | ok options => rfl

/-- What is wrong with a property does not depend on where it stands. -/
theorem fault_moved (c : Conversion) (message message' : String) (oneof oneof' : Option Int)
    (p : PropertyNode) (number : Int) (span : Span) :
    faultOf (c.property message oneof { p with number, span }) =
      faultOf (c.property message' oneof' p) := by
  rw [fault_property, fault_property, layout_enum c message message' p number span]
  rfl

theorem cause_moved (c : Conversion) (site : Site) (number : Int) (span : Span) :
    c.cause? (site.moved number span) = c.cause? site := by
  cases site with
  | element e => rfl
  | member head polymorph => rfl
  | property p => exact congrArg (Option.map _) (c.fault_moved "" "" none none p number span)

/-- Of all other things only the package and what its own names stand for matter to a site. -/
theorem cause_congr {c' : Conversion} {site : Site} (hpackage : c'.package = c.package)
    (h : ∀ t ∈ site.lookups, c'.lookup t = c.lookup t) : c'.cause? site = c.cause? site := by
  cases site with
  | element e => rfl
  | member head polymorph => simp only [cause?, checkMember, h _ List.mem_cons_self, hpackage]
  | property p => simp only [cause?, property_congr h]

/-! ## Errors of nodes -/

theorem memberErrors_eq (c : Conversion) (head : Head) (polymorphs : List String) :
    c.memberErrors head polymorphs = (polymorphs.map (Site.member head)).filterMap c.diagnose := by
  rw [List.filterMap_map]
  refine List.filterMap_congr fun polymorph _ => ?_
  rw [Function.comp_apply, diagnose, cause?]
  cases c.checkMember head polymorph with
  | ok _ => rfl
  | error e => rfl

theorem propertyErrors_eq (c : Conversion) (oneof : Option Int) (properties : List PropertyNode) :
    c.propertyErrors oneof properties = (properties.map Site.property).filterMap c.diagnose := by
  rw [List.filterMap_map]
  refine List.filterMap_congr fun p _ => ?_
  -- A site does not tell a branch from a property of an object, and need not.
  rw [Function.comp_apply, diagnose, cause?, ← c.fault_moved "" "" oneof none p p.number p.span]
  cases c.property "" oneof p with
  | ok _ => rfl
  | error e => rfl

mutual

theorem objectErrors_eq : (node : ObjectNode) → c.objectErrors node = node.sites.filterMap c.diagnose
  | { head, properties, nested, entity, polymorphMember } => by
      rw [objectErrors, ObjectNode.sites, memberErrors_eq, propertyErrors_eq, schemaErrorsList_sites nested,
        List.filterMap_append, List.filterMap_append]

theorem oneofErrors_eq : (node : OneofNode) → c.oneofErrors node = node.sites.filterMap c.diagnose
  | { head, properties, nested, entity } => by
      rw [oneofErrors, OneofNode.sites, propertyErrors_eq, schemaErrorsList_sites nested,
        List.filterMap_append]

theorem schemaErrors_sites : (node : SchemaNode) →
    c.schemaErrors node = node.sites.filterMap c.diagnose
  | .object node => by rw [schemaErrors, SchemaNode.sites, objectErrors_eq node]
  | .oneof node => by rw [schemaErrors, SchemaNode.sites, oneofErrors_eq node]
  | .enum _ => by rw [schemaErrors, SchemaNode.sites, List.filterMap_nil]
  | .polymorph _ => by rw [schemaErrors, SchemaNode.sites, List.filterMap_nil]

theorem schemaErrorsList_sites : (nodes : List SchemaNode) →
    c.schemaErrorsList nodes = (SchemaNode.sitesList nodes).filterMap c.diagnose
  | [] => by rw [schemaErrorsList, SchemaNode.sitesList, List.filterMap_nil]
  | node :: rest => by
      rw [schemaErrorsList, SchemaNode.sitesList, schemaErrors_sites node, schemaErrorsList_sites rest,
        List.filterMap_append]

end

theorem objectsErrors_eq (c : Conversion) (objects : List ObjectNode) :
    objects.flatMap c.objectErrors = (objects.flatMap ObjectNode.sites).filterMap c.diagnose := by
  rw [List.filterMap_flatMap]
  exact List.flatMap_congr fun node _ => objectErrors_eq node

theorem rootErrors_eq (c : Conversion) (root : RootNode) :
    c.rootErrors root = root.sites.filterMap c.diagnose := by
  cases root with
  | schema node => exact schemaErrors_sites node
  | service node => exact c.objectsErrors_eq node.objects
  | topic node => exact c.objectsErrors_eq node.objects

end Conversion

namespace Document

variable {d : Document} {r : Resolver}

theorem mem_nodeErrors {e : NodeError} : e ∈ d.nodeErrors ↔ .error e ∈ d.outcomes := by
  rw [nodeErrors, List.mem_filterMap]
  constructor
  · rintro ⟨outcome, houtcome, he⟩
    cases outcome with
    | ok roots => cases he
    | error e' =>
        cases he
        exact houtcome
  · exact fun h => ⟨_, h, rfl⟩

theorem conversionErrors_eq (d : Document) (r : Resolver) :
    d.conversionErrors r = d.sites.filterMap (d.conversion r).diagnose := by
  rw [conversionErrors, sites, List.filterMap_flatMap]
  refine List.flatMap_congr fun outcome _ => ?_
  cases outcome with
  | error e => rfl
  | ok roots =>
      rw [Site.ofOutcome, List.filterMap_flatMap]
      exact List.flatMap_congr fun root _ => (d.conversion r).rootErrors_eq root

/-- The errors of a conversion, or files if there are none. -/
def Returns (d : Document) (r : Resolver) (errors : List (Diagnostic SourceError)) : Prop :=
  if errors = [] then ∃ files, d.convert r = .ok files else d.convert r = .error errors

theorem returns_conversionErrors (d : Document) (r : Resolver) :
    d.Returns r (d.conversionErrors r) := by
  rw [Returns, convert]
  split
  · rename_i hnone
    rw [hnone]
    exact ⟨_, rfl⟩
  · rename_i hsome
    rw [if_neg (mt List.isEmpty_iff.mp hsome)]

/-! ## Documents that agree -/

/-- Two documents of one package with the same imports, in which some names stand for the same. -/
structure AgreesOn (names : List RefName) (d : Document) (r : Resolver) (d' : Document)
    (r' : Resolver) : Prop where
  package : d'.package = d.package
  imports : d'.imports = d.imports
  declared : ∀ t ∈ names, d'.declared.get? t.schema = d.declared.get? t.schema
  resolver : ∀ t ∈ names, r' (d.packageOf t) t.schema = r (d.packageOf t) t.schema

theorem AgreesOn.lookup {names : List RefName} {d' : Document} {r' : Resolver}
    (h : AgreesOn names d r d' r') {t : RefName} (ht : t ∈ names) :
    (d'.conversion r').lookup t = (d.conversion r).lookup t := by
  have hscope : d'.scope = d.scope := by rw [scope, scope, h.imports]
  have hdeclared : (d'.conversion r').declared.get? t.schema =
    (d.conversion r).declared.get? t.schema := h.declared t ht
  have hpackage : (d'.conversion r').packageOf t = d.packageOf t := by
    show d'.packageOf t = d.packageOf t
    rw [packageOf, packageOf, hscope, h.package]
  have hown : (d'.conversion r').package = (d.conversion r).package := h.package
  have hknown : (d'.conversion r').known? t = (d.conversion r).known? t := by
    rw [Conversion.known?, Conversion.known?, hpackage, hown, hdeclared]
    rfl
  have hresolver : (d'.conversion r').resolver (d.packageOf t) t.schema =
    (d.conversion r).resolver (d.packageOf t) t.schema := h.resolver t ht
  rw [Conversion.lookup_eq, Conversion.lookup_eq, hknown, hpackage, hresolver]
  rfl

/-- A conversion without a fatal error gives, in the order of a walk, the errors of the sites it comes by:
one for each element that cannot be built, and at most one for each membership and each property.  What is
wrong at a site is the same in every document in which its names stand for the same, wherever the site
stands and whatever else there is. -/
theorem convert_diagnoses (h : ∀ e ∈ d.nodeErrors, e.isFatal = false) (r : Resolver) :
    (d.walk Site.collector).run [] = .ok ((), d.sites) ∧
    d.sites = d.outcomes.flatMap Site.ofOutcome ∧
    (∀ e ∈ d.nodeErrors, e.place.file = d.path) ∧
    d.Returns r (d.sites.filterMap (d.conversion r).diagnose) ∧
    ∀ site d' r' number span, AgreesOn site.lookups d r d' r' →
      (d'.conversion r').cause? (site.moved number span) = (d.conversion r).cause? site := by
  have hgoes : ∀ e, .error e ∈ d.outcomes → e.isFatal = false :=
    fun e he => h e (mem_nodeErrors.mpr he)
  have hsites : d.sites = d.outcomes.flatMap Site.ofOutcome := by
    rw [sites, reach, NodeError.upToFatal_of_none hgoes]
  refine ⟨?_, hsites, fun e he => place_of_error (mem_nodeErrors.mp he), ?_,
    fun site d' r' number span hagrees => ?_⟩
  · rw [(walk_eq (fun _ _ => rfl) d).1]
    refine Site.run_forM (fun outcome houtcome => Site.collector_outcome ?_) []
    rintro e rfl
    exact hgoes e (NodeError.mem_of_mem_upToFatal houtcome)
  · rw [← conversionErrors_eq]
    exact d.returns_conversionErrors r
  · rw [Conversion.cause_moved]
    exact Conversion.cause_congr hagrees.package fun t ht => hagrees.lookup ht

/-- An object with a membership and two properties that are at fault and with another such object nested
in it, and an object without a name. -/
def toolbox : Document where
  path := "tools/v1/tools.j5s"
  package := "tools.v1"
  elements := [
    .object
      { name := "Tool"
        polymorphMember := ["parts.v1.Handle"]
        properties := [
          { name := "size", required := true, optional := true, schema := .string {} },
          { name := "weight", schema := .integer {} },
          { name := "head", schema := .object (.named { schema := "Head" }) false }]
        schemas := [.object
          { name := "Grip"
            properties := [{ name := "colors", optional := true, schema := .array (.string {}) {} none }] }] },
    .object { name := "" }]

theorem convert_diagnoses_toolbox : (∀ e ∈ toolbox.nodeErrors, e.isFatal = false) ∧
    ∃ errors, toolbox.convert (TypeTable.resolve {}) = .error errors ∧
      errors.map Diagnostic.cause =
        [.unconvertible (.unresolved (.packageNotFound "parts.v1")),
          .unconvertible (.requiredAndOptional "size"),
          .unconvertible (.unresolved (.packageNotFound "tools.v1")),
          .unconvertible (.optionalCollection "colors" "array"),
          .malformed (.malformed (.missingName "object") ⟨"tools/v1/tools.j5s", {}⟩)] := by
  have hgoes : ∀ e ∈ toolbox.nodeErrors, e.isFatal = false := by decide +kernel
  obtain ⟨-, -, -, hreturns, -⟩ := convert_diagnoses hgoes (TypeTable.resolve {})
  rw [Returns, if_neg (by decide +kernel)] at hreturns
  exact ⟨hgoes, _, hreturns, by decide +kernel⟩

end Document
end Schematic
