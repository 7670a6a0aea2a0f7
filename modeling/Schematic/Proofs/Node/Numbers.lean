import Schematic.Node.Entity
import Schematic.Proofs.Package.Repository

/-!
# Names and numbers of properties

A property has the number it is declared with, or else that of its place.  Names and numbers that are
taken are refused, so that those of one owner differ.
-/

namespace Schematic

/-- The number of the property that stands at `place`. -/
def PropertyDecl.numberAt (p : PropertyDecl) (place : Nat) : Int :=
  p.number.elim (place : Int) Int32.toInt

/-- The numbers of properties that stand from `place` on. -/
def PropertyDecl.numbersFrom (place : Nat) (ps : List PropertyDecl) : List Int :=
  (ps.zipIdx place).map fun x => x.1.numberAt x.2

namespace Build

variable {file : String} {names : List String} {numbers : List Int} {place : Nat}

theorem propertyNumber_eq (owner : String) (p : PropertyDecl) :
    propertyNumber file owner names numbers place p.name p.number p.span =
      requireName file "property" p.name p.span >>= fun _ =>
        if names.contains p.name then fault file p.span (.duplicateProperty owner p.name)
        else if p.numberAt place < 1 then
          fault file p.span (.invalidNumber owner p.name (p.numberAt place))
        else if numbers.contains (p.numberAt place) then
          fault file p.span (.duplicateNumber owner p.name (p.numberAt place))
        else .ok (p.numberAt place) := by
  unfold PropertyDecl.numberAt propertyNumber
  cases p.number <;> rfl

theorem propertyNumber_ok {owner : String} {p : PropertyDecl} {n : Int}
    (h : propertyNumber file owner names numbers place p.name p.number p.span = .ok n) :
    n = p.numberAt place ∧ p.name ∉ names ∧ 1 ≤ n ∧ n ∉ numbers := by
  rw [propertyNumber_eq] at h
  obtain ⟨_, -, h⟩ := bind_eq_ok h
  split at h
  · cases h
  · rename_i hname
    split at h
    · cases h
    · rename_i hpositive
      split at h
      · cases h
      · rename_i hnumber
        cases h
        refine ⟨rfl, fun hmem => hname (List.contains_iff_mem.mpr hmem), by omega,
          fun hmem => hnumber (List.contains_iff_mem.mpr hmem)⟩

theorem propertyNumber_error {owner : String} {p : PropertyDecl} {e : NodeError}
    (h : propertyNumber file owner names numbers place p.name p.number p.span = .error e) :
    e.isFatal = false := by
  rw [propertyNumber_eq] at h
  rcases bind_eq_error h with h | ⟨_, -, h⟩
  · rw [requireName] at h
    split at h <;> cases h
    rfl
  · repeat' split at h
    all_goals cases h
    all_goals rfl

theorem property_eq (owner : Head) (p : PropertyDecl) :
    property file owner names numbers place p =
      propertyNumber file owner.name names numbers place p.name p.number p.span >>= fun n =>
        field file owner p.name p.schema >>= fun kind =>
          .ok ({ name := p.name, description := p.description, number := n, required := p.required
                 optional := p.optional, entityKey := p.entityKey, field := kind.1, span := p.span },
            kind.2) := by
  cases p
  rw [property]
  rfl

theorem property_ok {owner : Head} {p : PropertyDecl} {node : PropertyNode} {hoisted : List SchemaNode}
    (h : property file owner names numbers place p = .ok (node, hoisted)) :
    node.name = p.name ∧ node.number = p.numberAt place ∧ node.name ∉ names ∧ 1 ≤ node.number ∧
      node.number ∉ numbers := by
  rw [property_eq] at h
  obtain ⟨n, hn, h⟩ := bind_eq_ok h
  obtain ⟨kind, -, h⟩ := bind_eq_ok h
  cases h
  obtain ⟨hnumber, hfresh⟩ := propertyNumber_ok hn
  exact ⟨rfl, hnumber, hfresh⟩

end Build

/-- Properties that stand from `place` on, where some names and numbers are taken. -/
structure PropertyNode.Numbered (takenNames : List String) (takenNumbers : List Int) (place : Nat)
    (decls : List PropertyDecl) (nodes : List PropertyNode) : Prop where
  names : nodes.map PropertyNode.name = decls.map PropertyDecl.name
  numbers : nodes.map PropertyNode.number = PropertyDecl.numbersFrom place decls
  distinctNames : (nodes.map PropertyNode.name).Nodup
  distinctNumbers : (nodes.map PropertyNode.number).Nodup
  positive : ∀ p ∈ nodes, 1 ≤ p.number
  freshNames : ∀ p ∈ nodes, p.name ∉ takenNames
  freshNumbers : ∀ p ∈ nodes, p.number ∉ takenNumbers

namespace Build

variable {file : String} {names : List String} {numbers : List Int} {place : Nat}

theorem properties_numbered {owner : Head} {decls : List PropertyDecl} {nodes : List PropertyNode}
    {hoisted : List SchemaNode}
    (h : properties file owner names numbers place decls = .ok (nodes, hoisted)) :
    PropertyNode.Numbered names numbers place decls nodes := by
  induction decls generalizing names numbers place nodes hoisted with
  | nil =>
      rw [properties] at h
      cases h
      exact ⟨rfl, rfl, .nil, .nil, by simp, by simp, by simp⟩
  | cons decl rest ih =>
      rw [properties] at h
      obtain ⟨⟨node, inner⟩, hnode, h⟩ := bind_eq_ok h
      obtain ⟨⟨others, outer⟩, hrest, h⟩ := bind_eq_ok h
      cases h
      obtain ⟨hname, hnumber, hfreshName, hpositive, hfreshNumber⟩ := property_ok hnode
      have hothers := ih hrest
      -- What is fresh for the others is so beside `node` too.
      refine ⟨?_, ?_, ?_, ?_, ?_, ?_, ?_⟩
      · rw [List.map_cons, List.map_cons, hname, hothers.names]
      · rw [List.map_cons, hnumber, hothers.numbers]
        rfl
      · refine List.nodup_cons.mpr ⟨fun hmem => ?_, hothers.distinctNames⟩
        obtain ⟨p, hp, heq⟩ := List.mem_map.mp hmem
        exact hothers.freshNames p hp (heq ▸ List.mem_cons_self)
      · refine List.nodup_cons.mpr ⟨fun hmem => ?_, hothers.distinctNumbers⟩
        obtain ⟨p, hp, heq⟩ := List.mem_map.mp hmem
        exact hothers.freshNumbers p hp (heq ▸ List.mem_cons_self)
      · exact List.forall_mem_cons.mpr ⟨hpositive, hothers.positive⟩
      · exact List.forall_mem_cons.mpr ⟨hfreshName, fun p hp hmem =>
          hothers.freshNames p hp (List.mem_cons_of_mem _ hmem)⟩
      · exact List.forall_mem_cons.mpr ⟨hfreshNumber, fun p hp hmem =>
          hothers.freshNumbers p hp (List.mem_cons_of_mem _ hmem)⟩

/-- If every schema can be built, only names and numbers are left to object to. -/
theorem properties_error {owner : Head} {decls : List PropertyDecl}
    (hdecls : ∀ decl ∈ decls, ∃ kind, field file owner decl.name decl.schema = .ok kind)
    {e : NodeError} (h : properties file owner names numbers place decls = .error e) :
    e.isFatal = false := by
  induction decls generalizing names numbers place with
  | nil =>
      rw [properties] at h
      cases h
  | cons decl rest ih =>
      obtain ⟨⟨kind, hkind⟩, hrest⟩ := List.forall_mem_cons.mp hdecls
      rw [properties] at h
      rcases bind_eq_error h with h | ⟨_, -, h⟩
      · rw [property_eq] at h
        rcases bind_eq_error h with h | ⟨_, -, h⟩
        · exact propertyNumber_error h
        · rw [hkind] at h
          cases h
      · rcases bind_eq_error h with h | ⟨_, -, h⟩
        · exact ih hrest h
        · cases h

theorem payload_error {name : String} {span : Span} {props : List PropertyDecl}
    (hprops : ∀ decl ∈ props, ∀ owner, ∃ kind, field file owner decl.name decl.schema = .ok kind)
    {e : NodeError} (h : payload file name span props = .error e) : e.isFatal = false := by
  rcases bind_eq_error h with h | ⟨_, -, h⟩
  · exact properties_error (fun decl hdecl => hprops decl hdecl _) h
  · cases h

end Build
end Schematic
