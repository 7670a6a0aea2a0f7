import Schematic.Proofs.Conversion.Comments

/-!
# Values of enums

The options of an enum may be written with its prefix or without it, and what tells them apart is what
is left without it.  The values are these bare names in their order, each behind the prefix, and the
unspecified value comes first.  A value is found by its full name and by the name its option was given.
-/

namespace Schematic

/-! ## Prefixes -/

theorem Build.bareName_append (valuePrefix bare : String) :
    bareName valuePrefix (valuePrefix ++ bare) = bare := by
  rw [bareName, Text.withoutStart?_eq_some_iff.mpr rfl, Option.getD_some]

theorem Build.bareName_of_not_startsWith {valuePrefix name : String}
    (h : Text.startsWith valuePrefix name = false) : bareName valuePrefix name = name := by
  rw [bareName, Text.withoutStart?_eq_none h, Option.getD_none]

/-- The prefix stands before the bare name, whether or not it was written. -/
theorem EnumTable.prefixed_eq (valuePrefix name : String) :
    prefixed valuePrefix name = valuePrefix ++ Build.bareName valuePrefix name := by
  cases h : Text.startsWith valuePrefix name with
  | true =>
      obtain ⟨bare, rfl⟩ := Text.startsWith_iff.mp h
      rw [prefixed, if_pos h, Build.bareName_append]
  | false =>
      rw [prefixed, h, Build.bareName_of_not_startsWith h]
      rfl

theorem EnumTable.prefixed_inj {valuePrefix a b : String} :
    prefixed valuePrefix a = prefixed valuePrefix b ↔
      Build.bareName valuePrefix a = Build.bareName valuePrefix b := by
  rw [prefixed_eq, prefixed_eq, String.append_right_inj]

/-! ## What the checks of an enum ensure -/

namespace Build

variable {file enum valuePrefix : String}

/-- An option that is accepted differs from those before it and is not the unspecified value, unless
it is the first. -/
theorem checkOptions_cons {seen : List String} {option : EnumOption} {rest : List EnumOption}
    (h : checkOptions file enum valuePrefix seen (option :: rest) = .ok ()) :
    bareName valuePrefix option.name ∉ seen ∧
      (seen ≠ [] → bareName valuePrefix option.name ≠ unspecified) ∧
      checkOptions file enum valuePrefix (bareName valuePrefix option.name :: seen) rest = .ok () := by
  rw [checkOptions] at h
  obtain ⟨_, -, h⟩ := bind_eq_ok h
  dsimp only at h
  split at h
  · cases h
  · rename_i hlate
    split at h
    · cases h
    · rename_i hseen
      refine ⟨fun hmem => hseen (List.contains_iff_mem.mpr hmem), fun hne heq => hlate ?_, h⟩
      simp [hne, heq]

theorem checkOptions_ok {seen : List String} {options : List EnumOption}
    (h : checkOptions file enum valuePrefix seen options = .ok ()) :
    (options.map fun o => bareName valuePrefix o.name).Nodup ∧
      (∀ o ∈ options, bareName valuePrefix o.name ∉ seen) ∧
      (seen ≠ [] → ∀ o ∈ options, bareName valuePrefix o.name ≠ unspecified) := by
  induction options generalizing seen with
  | nil => simp
  | cons option rest ih =>
      obtain ⟨hseen, hlate, hrest⟩ := checkOptions_cons h
      obtain ⟨hnodup, hothers, hspecified⟩ := ih hrest
      refine ⟨List.nodup_cons.mpr ⟨fun hmem => ?_, hnodup⟩, List.forall_mem_cons.mpr ⟨hseen, ?_⟩,
        fun hne => List.forall_mem_cons.mpr ⟨hlate hne, hspecified (List.cons_ne_nil _ _)⟩⟩
      · obtain ⟨o, ho, heq⟩ := List.mem_map.mp hmem
        exact hothers o ho (heq ▸ List.mem_cons_self)
      · exact fun o ho hmem => hothers o ho (List.mem_cons_of_mem _ hmem)

end Build

/-- The options of an enum differ in their bare names, and only the first may be the unspecified
value. -/
structure EnumNode.Checked (node : EnumNode) : Prop where
  distinct : (node.options.map fun o => Build.bareName node.valuePrefix o.name).Nodup
  late : ∀ o ∈ node.options.tail, Build.bareName node.valuePrefix o.name ≠ Build.unspecified

theorem Build.enum_checked {file : String} {nest : List String} {decl : EnumDecl}
    {node : EnumNode} (h : Build.enum file nest decl = .ok node) :
    node.valuePrefix = Build.enumPrefix decl ∧ node.options = decl.options ∧ node.Checked := by
  obtain ⟨_, -, h⟩ := bind_eq_ok h
  obtain ⟨_, hoptions, h⟩ := bind_eq_ok h
  cases h
  obtain ⟨hdistinct, -, -⟩ := Build.checkOptions_ok hoptions
  refine ⟨rfl, rfl, hdistinct, ?_⟩
  dsimp only
  cases hdecl : decl.options with
  | nil => exact fun o ho => absurd ho List.not_mem_nil
  | cons first rest =>
      rw [hdecl] at hoptions
      exact (Build.checkOptions_ok (Build.checkOptions_cons hoptions).2.2).2.2 (List.cons_ne_nil _ _)

/-! ## Values -/

namespace EnumNode

/-- The full name of an option. -/
def fullName (node : EnumNode) (o : EnumOption) : String :=
  node.valuePrefix ++ Build.bareName node.valuePrefix o.name

theorem startsUnspecified_cons {node : EnumNode} {first : EnumOption} {rest : List EnumOption}
    (h : node.options = first :: rest) : node.startsUnspecified = true ↔
      Build.bareName node.valuePrefix first.name = Build.unspecified := by
  rw [startsUnspecified, h, List.head?_cons, Option.any_some, decide_eq_true_iff, unspecifiedName,
    EnumTable.prefixed_eq, String.append_right_inj]

/-- The values are the options, behind the unspecified value where it is not one of them. -/
theorem values_eq (node : EnumNode) : node.values =
    (if node.startsUnspecified then [] else [⟨node.unspecifiedName, 0, none, node.head.span⟩]) ++
      node.options.zipIdx.map fun x =>
        ⟨node.fullName x.1, node.valuePlace x.2, x.1.description, x.1.span⟩ := by
  rw [values, zeroValue, numberedOptions]
  cases hoptions : node.options with
  | nil => simp [startsUnspecified, hoptions]
  | cons first rest =>
      have hfull : ∀ o : EnumOption,
          EnumTable.prefixed node.valuePrefix o.name = node.fullName o :=
        fun o => EnumTable.prefixed_eq node.valuePrefix o.name
      have hname : node.fullName first = node.unspecifiedName ↔ node.startsUnspecified = true := by
        rw [startsUnspecified_cons hoptions, fullName, unspecifiedName, String.append_right_inj]
      simp only [hfull, hname, valuePlace]
      by_cases h : node.startsUnspecified = true
      · simp [h, hname.mpr h]
      · simp [h, List.zipIdx_succ]

theorem names_values (node : EnumNode) : node.values.map EnumValue.name =
    (if node.startsUnspecified then [] else [node.unspecifiedName]) ++ node.options.map node.fullName := by
  have hoptions : (node.options.zipIdx.map fun x => node.fullName x.1) = node.options.map node.fullName := by
    rw [← List.zipIdx_map_fst 0 node.options, List.map_map, List.zipIdx_map_fst]
    rfl
  rw [values_eq, List.map_append, List.map_map, ← hoptions, apply_ite (List.map EnumValue.name)]
  rfl

theorem numbers_values (node : EnumNode) : node.values.map EnumValue.number =
    (List.range node.values.length).map fun n : Nat => (n : Int) := by
  have hplaces : (node.options.zipIdx.map fun x => (node.valuePlace x.2 : Int)) =
      (List.range node.options.length).map fun n : Nat => (node.valuePlace n : Int) := by
    rw [List.range_eq_range', ← List.zipIdx_map_snd, List.map_map]
    rfl
  rw [values_eq, List.map_append, List.map_map, List.length_append, List.length_map, List.length_zipIdx]
  refine (congrArg _ hplaces).trans ?_
  by_cases h : node.startsUnspecified = true
  · simp [h, valuePlace]
  · simp [h, valuePlace, List.range_succ_eq_map, Nat.add_comm 1]

namespace Checked

variable {node : EnumNode}

theorem fullName_ne (h : node.Checked) (hfirst : node.startsUnspecified ≠ true) {o : EnumOption}
    (ho : o ∈ node.options) : node.fullName o ≠ node.unspecifiedName := by
  rw [fullName, unspecifiedName, Ne, String.append_right_inj]
  intro heq
  cases hoptions : node.options with
  | nil =>
      rw [hoptions] at ho
      cases ho
  | cons first rest =>
      have hlate := h.late o
      rw [hoptions] at ho hlate
      rcases List.mem_cons.mp ho with rfl | ho
      · exact hfirst ((startsUnspecified_cons hoptions).mpr heq)
      · exact hlate ho heq

theorem nodup_names (h : node.Checked) : (node.values.map EnumValue.name).Nodup := by
  have hfull : (node.options.map node.fullName).Nodup := by
    have hdistinct := List.Nodup.map (f := (node.valuePrefix ++ ·))
      (fun _ _ => (String.append_right_inj _).mp) h.distinct
    rwa [List.map_map] at hdistinct
  rw [names_values]
  split
  · exact hfull
  · rename_i hfirst
    refine List.nodup_cons.mpr ⟨fun hmem => ?_, hfull⟩
    obtain ⟨o, ho, heq⟩ := List.mem_map.mp hmem
    exact h.fullName_ne hfirst ho heq

/-- A value is found by every name that stands for its own. -/
theorem value?_table (h : node.Checked) {i : Nat} {v : EnumValue} (hv : node.values[i]? = some v)
    {name : String} (hname : EnumTable.prefixed node.valuePrefix name = v.name) :
    node.table.value? name = some (v.name, (i : Int)) := by
  have hnumber : v.number = (i : Int) := by
    have hlt := (List.getElem?_eq_some_iff.mp hv).1
    have hnumbers := congrArg (·[i]?) (numbers_values node)
    simp only [List.getElem?_map, hv, List.getElem?_range hlt] at hnumbers
    exact Option.some.inj hnumbers
  have hfind : node.values.find? (fun w => w.name == v.name) = some v := by
    obtain ⟨before, behind, heq⟩ := List.append_of_mem (List.mem_of_getElem? hv)
    have hnodup := h.nodup_names
    rw [heq, List.map_append, List.map_cons, List.nodup_append] at hnodup
    refine List.find?_eq_some_iff_append.mpr ⟨beq_self_eq_true _, before, behind, heq, fun w hw => ?_⟩
    have hne := hnodup.2.2 _ (List.mem_map_of_mem hw) _ List.mem_cons_self
    simpa using hne
  rw [EnumTable.value?, table, hname, List.find?_map]
  refine (congrArg (Option.map _) hfind).trans ?_
  rw [Option.map_some, hnumber]

end Checked

/-- The values of an enum stand for its options. -/
structure Sound (node : EnumNode) : Prop where
  /-- They are numbered from 0 on. -/
  numbers : node.values.map EnumValue.number = (List.range node.values.length).map fun n : Nat => (n : Int)
  /-- Value 0 is the unspecified one, and no other is. -/
  zero : node.values.head?.map EnumValue.name = some (node.valuePrefix ++ "UNSPECIFIED")
  specified : ∀ v ∈ node.values.tail, v.name ≠ node.valuePrefix ++ "UNSPECIFIED"
  named : ∀ v ∈ node.values, Text.startsWith node.valuePrefix v.name = true
  distinct : (node.values.map EnumValue.name).Nodup
  /-- The options come in their order, from value 0 on if the first is the unspecified one, else from
  value 1 on. -/
  options : node.values.drop (node.valuePlace 0) = node.options.zipIdx.map fun x =>
    ⟨node.fullName x.1, node.valuePlace x.2, x.1.description, x.1.span⟩
  place : node.valuePlace 0 = 0 ↔ ∃ first rest, node.options = first :: rest ∧
    Build.bareName node.valuePrefix first.name = "UNSPECIFIED"
  /-- An option is found by the name that it was given, by its full name, and by its bare name unless
  this starts with the prefix again. -/
  found : ∀ j o, node.options[j]? = some o → ∀ name, (name = o.name ∨ name = node.fullName o ∨
    name = Build.bareName node.valuePrefix o.name ∧ Text.startsWith node.valuePrefix name = false) →
      node.table.value? name = some (node.fullName o, (node.valuePlace j : Int))

theorem valuePlace_eq (node : EnumNode) (j : Nat) : node.valuePlace j = node.valuePlace 0 + j := by
  rw [valuePlace, valuePlace]
  split <;> omega

theorem valuePlace_zero {node : EnumNode} : node.valuePlace 0 = 0 ↔ ∃ first rest,
    node.options = first :: rest ∧ Build.bareName node.valuePrefix first.name = Build.unspecified := by
  have hfirst : node.valuePlace 0 = 0 ↔ node.startsUnspecified = true := by
    rw [valuePlace]
    split <;> simp [*]
  rw [hfirst]
  cases hoptions : node.options with
  | nil => simp [startsUnspecified, hoptions]
  | cons first rest => simp [startsUnspecified_cons hoptions]

theorem drop_values (node : EnumNode) : node.values.drop (node.valuePlace 0) =
    node.options.zipIdx.map fun x =>
      ⟨node.fullName x.1, node.valuePlace x.2, x.1.description, x.1.span⟩ := by
  rw [values_eq, valuePlace]
  split <;> rfl

theorem getElem?_values {node : EnumNode} {j : Nat} {o : EnumOption} (ho : node.options[j]? = some o) :
    node.values[node.valuePlace j]? =
      some ⟨node.fullName o, node.valuePlace j, o.description, o.span⟩ := by
  have hdrop := congrArg (·[j]?) (drop_values node)
  simp only [List.getElem?_drop, ← valuePlace_eq, List.getElem?_map, List.getElem?_zipIdx, ho,
    Option.map_some, Nat.zero_add] at hdrop
  exact hdrop

theorem exists_zero (node : EnumNode) :
    ∃ zero rest, node.values = zero :: rest ∧ zero.name = node.unspecifiedName := by
  refine ⟨_, _, rfl, ?_⟩
  rw [zeroValue]
  split
  · rfl
  · split <;> rfl

theorem startsWith_of_mem_values {node : EnumNode} {v : EnumValue} (hv : v ∈ node.values) :
    Text.startsWith node.valuePrefix v.name = true := by
  have hname := List.mem_map_of_mem (f := EnumValue.name) hv
  rw [names_values, List.mem_append, List.mem_map] at hname
  refine Text.startsWith_iff.mpr ?_
  rcases hname with hname | ⟨o, -, hname⟩
  · split at hname
    · cases hname
    · exact ⟨_, List.mem_singleton.mp hname⟩
  · exact ⟨_, hname.symm⟩

theorem Checked.sound {node : EnumNode} (h : node.Checked) : node.Sound := by
  obtain ⟨zero, rest, hvalues, hzero⟩ := exists_zero node
  have hnodup := h.nodup_names
  refine ⟨numbers_values node, ?_, ?_, fun v => startsWith_of_mem_values, hnodup, drop_values node,
    valuePlace_zero, fun j o ho name hname => h.value?_table (getElem?_values ho) ?_⟩
  · rw [hvalues, List.head?_cons, Option.map_some, hzero]
    rfl
  · rw [hvalues, List.map_cons, List.nodup_cons, hzero] at hnodup
    rw [hvalues, List.tail_cons]
    exact fun v hv heq => hnodup.1 (List.mem_map.mpr ⟨v, hv, heq⟩)
  · rw [EnumTable.prefixed_eq]
    rcases hname with rfl | rfl | ⟨rfl, hbare⟩
    · rfl
    · rw [fullName, Build.bareName_append]
    · rw [Build.bareName_of_not_startsWith hbare]
      rfl

end EnumNode

/-- Whatever the prefix of an enum is and however its options are written, the values of an enum that is
accepted stand for its options. -/
theorem Build.enum_sound {file : String} {nest : List String} {decl : EnumDecl} {node : EnumNode}
    (h : enum file nest decl = .ok node) :
    node.valuePrefix = enumPrefix decl ∧ node.options = decl.options ∧ node.Sound := by
  obtain ⟨hstart, hoptions, hchecked⟩ := enum_checked h
  exact ⟨hstart, hoptions, hchecked.sound⟩

/-- An enum whose options are written with the prefix, without it and with it twice. -/
def EnumDecl.sizes : EnumDecl where
  name := "Size"
  options :=
    [{ name := "UNSPECIFIED", description := some "Not measured." }, { name := "SIZE_SMALL" },
     { name := "LARGE" }, { name := "SIZE_SIZE_SMALL" }]

/-- Of the options that start with the prefix once it is taken off, the bare name stands for another. -/
theorem Build.enum_sound_sizes : ∃ node, enum "a/v1/a.j5s" [] EnumDecl.sizes = .ok node ∧
    node.valuePrefix = "SIZE_" ∧ node.Sound ∧
    node.values.map (fun v => (v.name, v.number, v.description)) =
      [("SIZE_UNSPECIFIED", 0, some "Not measured."), ("SIZE_SMALL", 1, none), ("SIZE_LARGE", 2, none),
        ("SIZE_SIZE_SMALL", 3, none)] ∧
    node.table.value? "SIZE_SMALL" = some ("SIZE_SMALL", 1) := by
  obtain ⟨node, hnode⟩ : ∃ node, enum "a/v1/a.j5s" [] EnumDecl.sizes = .ok node := ⟨_, rfl⟩
  obtain ⟨hstart, -, hsound⟩ := enum_sound hnode
  refine ⟨node, hnode, hstart, hsound, ?_⟩
  cases hnode
  decide +kernel

end Schematic
