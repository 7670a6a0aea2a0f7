import Schematic.Proofs.Node.EnumValues
import Schematic.Proofs.Node.Expansion
import Schematic.Proofs.Node.Numbers

/-!
# Default status filters

The filters of an entity's query are written with the prefix of the status enum or without it.  The
prefix is taken off a filter, and what is left is compared with the statuses as they were declared, so
that a status declared with the prefix is not found under its own name.
-/

namespace Schematic
namespace Entity

variable {file : String} {decl : EntityDecl} {names : Names} {query : EntityQuery}

/-! ## What depends on the query -/

/-- The properties of the answer to a get can only clash. -/
theorem getResponse_error {name : String} {span : Span} {e : NodeError}
    (h : Build.payload file name span (getResponse decl names) = .error e) : e.isFatal = false := by
  refine Build.payload_error (fun p hp owner => ?_) h
  rw [getResponse, List.mem_cons] at hp
  rcases hp with rfl | hp
  · exact ⟨_, rfl⟩
  · split at hp
    · rw [List.mem_singleton] at hp
      subst hp
      exact ⟨_, rfl⟩
    · cases hp

theorem queryService_error {node : ServiceNode} {e : NodeError}
    (h : queryService file { decl with query := none } names = .ok node)
    (he : queryService file { decl with query := some query } names = .error e) :
    e.isFatal = false := by
  obtain ⟨get, hget, h⟩ := bind_eq_ok h
  obtain ⟨request, hrequest, -⟩ := bind_eq_ok hget
  obtain ⟨list, hlist, h⟩ := bind_eq_ok h
  obtain ⟨events, hevents, -⟩ := bind_eq_ok h
  rcases bind_eq_error he with he | ⟨_, -, he⟩
  · rcases bind_eq_error he with he | ⟨_, -, he⟩
    · cases hrequest.symm.trans he
    · rcases bind_eq_error he with he | ⟨_, -, he⟩
      · exact getResponse_error he
      · cases he
  · rcases bind_eq_error he with he | ⟨_, -, he⟩
    · cases hlist.symm.trans he
    · rcases bind_eq_error he with he | ⟨_, -, he⟩
      · cases hevents.symm.trans he
      · cases he

theorem exists_state (file : String) (decl : EntityDecl) (names : Names) (filters : List String) :
    ∃ node, state file decl names filters = .ok node :=
  ⟨_, rfl⟩

section Query

variable {nodes : List RootNode} (h : expand file { decl with query := none } = .ok nodes)
include h

/-- Filters that are no statuses are found before any part is built. -/
theorem expand_of_defaultFilters_error {e : NodeError}
    (he : defaultFilters file { decl with query := some query } (.ofDecl decl.name) = .error e) :
    expand file { decl with query := some query } = .error e := by
  obtain ⟨_, hname, h⟩ := bind_eq_ok h
  obtain ⟨_, hcheck, -⟩ := bind_eq_ok h
  refine (bind_of_ok hname _).trans ((bind_of_ok hcheck _).trans ?_)
  dsimp only
  rw [he]
  rfl

/-- Every part but the queries can be built with the query if it can be without it. -/
theorem expand_error {filters : List String} {e : NodeError}
    (hfilters : defaultFilters file { decl with query := some query } (.ofDecl decl.name) = .ok filters)
    (he : expand file { decl with query := some query } = .error e) : e.isFatal = false := by
  obtain ⟨parts, -, -⟩ := exists_expansion_filters h
  obtain ⟨_, hname, h⟩ := bind_eq_ok h
  obtain ⟨_, hcheck, -⟩ := bind_eq_ok h
  obtain ⟨state, hstate⟩ := exists_state file decl (.ofDecl decl.name) filters
  replace he := (bind_of_ok hname _).symm.trans he
  replace he := (bind_of_ok hcheck _).symm.trans he
  replace he := (bind_of_ok hfilters _).symm.trans he
  replace he := (bind_of_ok parts.keys_eq _).symm.trans he
  replace he := (bind_of_ok parts.data_eq _).symm.trans he
  replace he := (bind_of_ok parts.status_eq _).symm.trans he
  replace he := (bind_of_ok hstate _).symm.trans he
  replace he := (bind_of_ok parts.eventType_eq _).symm.trans he
  replace he := (bind_of_ok parts.event_eq _).symm.trans he
  rcases bind_eq_error he with he | ⟨_, -, he⟩
  · exact queryService_error parts.query_eq he
  · replace he := (bind_of_ok parts.commands_eq _).symm.trans he
    replace he := (bind_of_ok parts.publish_eq _).symm.trans he
    replace he := (bind_of_ok parts.summaries_eq _).symm.trans he
    replace he := (bind_of_ok parts.schemas_eq _).symm.trans he
    cases he

end Query

/-! ## Filters and statuses -/

/-- The filter without the prefix is the status as it was declared. -/
def Names.Picks (names : Names) (f : String) (s : StatusDecl) : Prop :=
  Build.bareName names.statusPrefix f = s.name

/-- Filter and status are the same once both have the prefix. -/
def Names.Matches (names : Names) (f : String) (s : StatusDecl) : Prop :=
  EnumTable.prefixed names.statusPrefix f = EnumTable.prefixed names.statusPrefix s.name

/-- Only a status declared with the prefix tells the two apart. -/
theorem Names.picks_iff_matches {s : StatusDecl}
    (hs : Text.startsWith names.statusPrefix s.name = false) (f : String) :
    names.Picks f s ↔ names.Matches f s := by
  rw [Picks, Matches, EnumTable.prefixed_inj, Build.bareName_of_not_startsWith hs]

/-- A filter that is kept is found as a value of the status enum: that of a status which the filter
stands for by `R`. -/
def Names.Resolves (names : Names) (R : String → StatusDecl → Prop) (decl : EntityDecl)
    (status : EnumNode) (f kept : String) : Prop :=
  ∃ s ∈ decl.status, R f s ∧ ∃ v ∈ status.values,
    v.name = EnumTable.prefixed names.statusPrefix s.name ∧
      status.table.value? kept = some (v.name, v.number)

/-- The nodes of an entity whose state keeps a filter for each of the given. -/
def Keeps (R : String → StatusDecl → Prop) (decl : EntityDecl) (filters : List String)
    (nodes : List RootNode) : Prop :=
  ∃ (status : EnumNode) (state : ObjectNode) (p : PropertyNode) (stored : List String),
    nodes[2]? = some (.schema (.enum status)) ∧
    nodes[3]? = some (.schema (.object state)) ∧ p ∈ state.properties ∧ p.name = "status" ∧
    p.field = .enum ((Names.ofDecl decl.name).ref "Status") { definedOnly := true }
      (some { filterable := true, defaultFilters := stored }) ∧
    List.Forall₂ ((Names.ofDecl decl.name).Resolves R decl status) filters stored

/-- Filters are read by `R`: the query ends the document exactly if one of them stands for no status,
and otherwise each is kept and found as a status that it stands for. -/
structure ReadsFilters (file : String) (decl : EntityDecl) (query : EntityQuery)
    (R : String → StatusDecl → Prop) : Prop where
  unknown : (∃ entity status place, expand file { decl with query := some query } =
    .error (.unknownStatusFilter entity status place)) ↔
      ∃ f ∈ query.defaultStatusFilter, ∀ s ∈ decl.status, ¬ R f s
  keeps : ∀ nodes, expand file { decl with query := some query } = .ok nodes →
    Keeps R decl query.defaultStatusFilter nodes

theorem ReadsFilters.congr {R R' : String → StatusDecl → Prop}
    (hR : ∀ f, ∀ s ∈ decl.status, R f s ↔ R' f s) (h : ReadsFilters file decl query R) :
    ReadsFilters file decl query R' where
  unknown := by
    refine h.unknown.trans (exists_congr fun f => and_congr_right fun _ => ?_)
    exact forall₂_congr fun s hs => not_congr (hR f s hs)
  keeps nodes hnodes := by
    obtain ⟨status, state, p, stored, hstatus, hstate, hp, hname, hfield, hresolve⟩ :=
      h.keeps nodes hnodes
    refine ⟨status, state, p, stored, hstatus, hstate, hp, hname, hfield, hresolve.imp ?_⟩
    rintro f kept ⟨s, hs, hfs, hfound⟩
    exact ⟨s, hs, (hR f s hs).mp hfs, hfound⟩

/-! ## The status enum -/

theorem enumPrefix_statusDecl (decl : EntityDecl) (names : Names) :
    Build.enumPrefix (statusDecl decl names) = names.statusPrefix := by
  have hends : Text.endsWith "_" names.statusPrefix = true := by
    rw [Text.endsWith, Names.statusPrefix, String.toList_append, List.isSuffixOf_iff_suffix]
    exact ⟨(Case.upperSnake names.camel).toList ++ "_STATUS".toList, by rw [List.append_assoc]; rfl⟩
  unfold Build.enumPrefix statusDecl
  exact if_pos hends

theorem status_checked {node : EnumNode} (h : status file decl names = .ok node) :
    node.valuePrefix = names.statusPrefix ∧
      node.options = decl.status.map (fun s => ⟨s.name, s.description, s.span⟩) ∧ node.Checked := by
  obtain ⟨built, hbuilt, h⟩ := bind_eq_ok h
  cases h
  obtain ⟨hstart, hoptions, hchecked⟩ := Build.enum_checked hbuilt
  exact ⟨hstart.trans (enumPrefix_statusDecl decl names), hoptions, hchecked.distinct, hchecked.late⟩

/-- A filter that is kept as the name of a status is found as the value of that status. -/
theorem resolves_of_picks {node : EnumNode} (h : status file decl names = .ok node) {s : StatusDecl}
    (hs : s ∈ decl.status) {f : String} (hf : names.Picks f s) :
    names.Resolves names.Picks decl node f (Build.bareName names.statusPrefix f) := by
  obtain ⟨hstart, hoptions, hchecked⟩ := status_checked h
  obtain ⟨j, hj⟩ := List.mem_iff_getElem?.mp hs
  have hoption : node.options[j]? = some ⟨s.name, s.description, s.span⟩ := by
    rw [hoptions, List.getElem?_map, hj]
    rfl
  have hvalue := EnumNode.getElem?_values hoption
  have hfull : EnumTable.prefixed node.valuePrefix s.name =
      node.fullName ⟨s.name, s.description, s.span⟩ := EnumTable.prefixed_eq _ _
  refine ⟨s, hs, hf, _, List.mem_of_getElem? hvalue, ?_, ?_⟩
  · rw [← hstart, hfull]
  · rw [hf, hchecked.value?_table hvalue hfull]

/-- The state keeps the filters on its status. -/
theorem exists_status_property {filters : List String} {node : ObjectNode}
    (h : state file decl names filters = .ok node) :
    ∃ p ∈ node.properties, p.name = "status" ∧
      p.field = .enum (names.ref "Status") { definedOnly := true }
        (some { filterable := true, defaultFilters := filters }) := by
  obtain ⟨built, hbuilt, h⟩ := bind_eq_ok h
  cases h
  have hlast := List.mem_of_getElem? (l := stateProperties names filters) (i := 3) rfl
  obtain ⟨p, hp, hname, owner, inner, hfield⟩ := Build.exists_built_of_payload hbuilt hlast
  exact ⟨p, hp, hname, congrArg Prod.fst (Except.ok.inj hfield.symm)⟩

theorem keeps_of_expand {nodes : List RootNode}
    (h : expand file { decl with query := some query } = .ok nodes) :
    Keeps (Names.ofDecl decl.name).Picks decl query.defaultStatusFilter nodes := by
  obtain ⟨e, rfl, hfilters⟩ := exists_expansion_filters h
  obtain ⟨p, hp, hname, hfield⟩ := exists_status_property e.state_eq
  refine ⟨e.status, e.state, p, e.filters, rfl, rfl, hp, hname, hfield, ?_⟩
  rcases statusFilters_cases file { decl with query := some query } (.ofDecl decl.name) query
    query.defaultStatusFilter with ⟨hall, hok⟩ | ⟨g, -, -, herror⟩
  · rw [← Except.ok.inj (hok.symm.trans hfilters), List.forall₂_map_right_iff, List.forall₂_same]
    intro f hf
    obtain ⟨s, hs, hfs⟩ := List.mem_map.mp (hall f hf)
    exact resolves_of_picks e.status_eq hs hfs.symm
  · cases herror.symm.trans hfilters

end Entity

/-- Every entity that can be written out without its query reads the filters of every query by what is
left of them without the prefix, and this is as filters and statuses match unless a status was declared
with the prefix. -/
theorem Entity.expand_readsFilters {file : String} {decl : EntityDecl} {nodes : List RootNode}
    (h : expand file { decl with query := none } = .ok nodes) (query : EntityQuery) :
    ReadsFilters file decl query (Names.ofDecl decl.name).Picks ∧
      ((∀ s ∈ decl.status, Text.startsWith (Names.ofDecl decl.name).statusPrefix s.name = false) →
        ReadsFilters file decl query (Names.ofDecl decl.name).Matches) := by
  have hreads : ReadsFilters file decl query (Names.ofDecl decl.name).Picks := by
    have hcases := statusFilters_cases file { decl with query := some query } (.ofDecl decl.name) query
      query.defaultStatusFilter
    refine ⟨⟨?_, ?_⟩, fun nodes => keeps_of_expand⟩
    · rintro ⟨entity, status, place, he⟩
      rcases hcases with ⟨-, hok⟩ | ⟨f, hf, hunknown, -⟩
      · cases expand_error h hok he
      · exact ⟨f, hf, fun s hs hfs => hunknown (List.mem_map.mpr ⟨s, hs, hfs.symm⟩)⟩
    · rintro ⟨f, hf, hnone⟩
      rcases hcases with ⟨hall, -⟩ | ⟨g, -, -, herror⟩
      · obtain ⟨s, hs, hfs⟩ := List.mem_map.mp (hall f hf)
        exact absurd hfs.symm (hnone s hs)
      · exact ⟨_, _, _, expand_of_defaultFilters_error h herror⟩
  exact ⟨hreads, fun hdeclared => hreads.congr fun f s hs => Names.picks_iff_matches (hdeclared s hs) f⟩

/-- An entity with the given statuses. -/
def EntityDecl.parcel (status : List String) : EntityDecl where
  name := "Parcel"
  keys := [{ name := "parcelId", entityKey := some { primary := true }, schema := .key {} }]
  status := status.map fun name => { name }
  events := [{ name := "sent" }]

/-- Filters with the prefix and without it, for statuses without it. -/
theorem Entity.expand_readsFilters_parcel :
    ReadsFilters "a/v1/a.j5s" (.parcel ["SENT", "LOST"])
        { defaultStatusFilter := ["PARCEL_STATUS_LOST", "SENT"] } (Names.ofDecl "Parcel").Matches ∧
      (∃ nodes, expand "a/v1/a.j5s" { EntityDecl.parcel ["SENT", "LOST"] with
        query := some { defaultStatusFilter := ["PARCEL_STATUS_LOST", "SENT"] } } = .ok nodes) := by
  obtain ⟨nodes, hnodes⟩ :
    ∃ nodes, expand "a/v1/a.j5s" { EntityDecl.parcel ["SENT", "LOST"] with query := none } = .ok nodes :=
    ⟨_, rfl⟩
  have hreads := @expand_readsFilters "a/v1/a.j5s" (.parcel ["SENT", "LOST"]) nodes hnodes
    { defaultStatusFilter := ["PARCEL_STATUS_LOST", "SENT"] }
  exact ⟨hreads.2 (by decide +kernel), _, rfl⟩

/-- A status declared with the prefix is refused under its own name, and where what is left of that is
another status, the filter becomes a filter for the other. -/
theorem Entity.expand_misreads_parcel :
    (∃ nodes, expand "a/v1/a.j5s" (.parcel ["PARCEL_STATUS_LOST"]) = .ok nodes) ∧
    (Names.ofDecl "Parcel").Matches "PARCEL_STATUS_LOST" { name := "PARCEL_STATUS_LOST" } ∧
    expand "a/v1/a.j5s" { EntityDecl.parcel ["PARCEL_STATUS_LOST"] with
        query := some { defaultStatusFilter := ["PARCEL_STATUS_LOST"] } } =
      .error (.unknownStatusFilter "Parcel" "PARCEL_STATUS_LOST" ⟨"a/v1/a.j5s", {}⟩) ∧
    ∃ (nodes : List RootNode) (status : EnumNode) (state : ObjectNode) (p : PropertyNode)
      (rules : ListRules), expand "a/v1/a.j5s"
        { EntityDecl.parcel ["PARCEL_STATUS_LOST", "PARCEL_STATUS_PARCEL_STATUS_LOST"] with
          query := some { defaultStatusFilter := ["PARCEL_STATUS_PARCEL_STATUS_LOST"] } } = .ok nodes ∧
      nodes[2]? = some (.schema (.enum status)) ∧ nodes[3]? = some (.schema (.object state)) ∧
      state.properties[3]? = some p ∧
      p.field = .enum ⟨none, "ParcelStatus"⟩ { definedOnly := true } (some rules) ∧
      rules.defaultFilters = ["PARCEL_STATUS_LOST"] ∧
      status.table.value? "PARCEL_STATUS_LOST" = some ("PARCEL_STATUS_LOST", 1) ∧
      status.table.value? "PARCEL_STATUS_PARCEL_STATUS_LOST" =
        some ("PARCEL_STATUS_PARCEL_STATUS_LOST", 2) :=
  ⟨⟨_, rfl⟩, by rfl, rfl, _, _, _, _, _, rfl, rfl, rfl, rfl, rfl, by decide +kernel, by decide +kernel,
    by decide +kernel⟩

end Schematic
