import Schematic.Proofs.Package.Depth
import Schematic.Proofs.Package.Twin

/-!
# Linting and building agree

A package can be built just where linting it finds no error.  Both load the package and build
what it needs.  Then building converts all sources and links their files in turn, up to
the first failure, while linting goes on, and does not mark the package as converted.

Up to the first failure the two package sets are twins, and where there is a failure there is
an error in the report.
-/

namespace Schematic

open Relation BuildM

/-! ## Errors of conversion -/

namespace Conversion

variable (c : Conversion)

theorem isError_of_mem_propertyErrors {oneof : Option Int} {properties : List PropertyNode}
    {d : Diagnostic SourceError} (h : d ∈ c.propertyErrors oneof properties) : d.isError = true := by
  obtain ⟨p, -, h⟩ := List.mem_filterMap.mp h
  split at h <;> cases h
  rfl

theorem isError_of_mem_memberErrors {head : Head} {polymorphs : List String}
    {d : Diagnostic SourceError} (h : d ∈ c.memberErrors head polymorphs) : d.isError = true := by
  obtain ⟨p, -, h⟩ := List.mem_filterMap.mp h
  split at h <;> cases h
  rfl

mutual

theorem isError_of_mem_objectErrors :
    (node : ObjectNode) → ∀ d ∈ c.objectErrors node, d.isError = true
  | { head, properties, nested, entity, polymorphMember }, d, h => by
      rw [objectErrors, List.mem_append, List.mem_append] at h
      rcases h with (h | h) | h
      · exact c.isError_of_mem_memberErrors h
      · exact c.isError_of_mem_propertyErrors h
      · exact isError_of_mem_schemaErrorsList nested d h

theorem isError_of_mem_oneofErrors :
    (node : OneofNode) → ∀ d ∈ c.oneofErrors node, d.isError = true
  | { head, properties, nested, entity }, d, h => by
      rw [oneofErrors, List.mem_append] at h
      rcases h with h | h
      · exact c.isError_of_mem_propertyErrors h
      · exact isError_of_mem_schemaErrorsList nested d h

theorem isError_of_mem_schemaErrorsList :
    (nodes : List SchemaNode) → ∀ d ∈ c.schemaErrorsList nodes, d.isError = true
  | [], d, h => absurd h List.not_mem_nil
  | .object node :: rest, d, h => by
      rw [schemaErrorsList, List.mem_append] at h
      exact h.elim (isError_of_mem_objectErrors node d) (isError_of_mem_schemaErrorsList rest d)
  | .oneof node :: rest, d, h => by
      rw [schemaErrorsList, List.mem_append] at h
      exact h.elim (isError_of_mem_oneofErrors node d) (isError_of_mem_schemaErrorsList rest d)
  | .enum _ :: rest, d, h => isError_of_mem_schemaErrorsList rest d h
  | .polymorph _ :: rest, d, h => isError_of_mem_schemaErrorsList rest d h

end

theorem isError_of_mem_rootErrors {node : RootNode} {d : Diagnostic SourceError}
    (h : d ∈ c.rootErrors node) : d.isError = true := by
  cases node with
  | schema node =>
      refine c.isError_of_mem_schemaErrorsList [node] d ?_
      rw [schemaErrorsList, schemaErrorsList, List.append_nil]
      exact h
  | service node =>
      obtain ⟨object, -, h⟩ := List.mem_flatMap.mp h
      exact c.isError_of_mem_objectErrors object d h
  | topic node =>
      obtain ⟨object, -, h⟩ := List.mem_flatMap.mp h
      exact c.isError_of_mem_objectErrors object d h

end Conversion

theorem Document.isError_of_mem_conversionErrors {d : Document} {r : Resolver}
    {e : Diagnostic SourceError} (h : e ∈ d.conversionErrors r) : e.isError = true := by
  obtain ⟨reached, -, h⟩ := List.mem_flatMap.mp h
  cases reached with
  | ok nodes =>
      obtain ⟨node, -, h⟩ := List.mem_flatMap.mp h
      exact Conversion.isError_of_mem_rootErrors _ h
  | error cause =>
      rw [List.mem_singleton.mp h]
      rfl

/-- A source that cannot be converted has an error. -/
theorem SourceFile.errors_of_convert {source : SourceFile} {r : Resolver}
    {errors : List (Diagnostic SourceError)} (h : source.convert r = .error errors) :
    Diagnostics.errors (errors.map (Diagnostic.map LintFinding.source)) ≠ [] := by
  unfold convert at h
  split at h
  · simp only [Document.convert] at h
    split at h <;> cases h
    rename_i hnil
    obtain ⟨e, rest, heq⟩ := List.exists_cons_of_ne_nil (mt List.isEmpty_iff.mpr hnil)
    have he : e.isError = true :=
      Document.isError_of_mem_conversionErrors (heq ▸ List.mem_cons_self)
    have he' : (Diagnostic.map LintFinding.source e).isError = true := he
    rw [heq, List.map_cons, Diagnostics.errors, List.filter_cons_of_pos he']
    exact List.cons_ne_nil _ _
  · cases h

namespace Workspace

variable (w : Workspace)

/-! ## Linting goes on -/

theorem isError_unusedImport (source : SourceFile) (file : String) :
    (unusedImport source file).isError = false := by
  unfold unusedImport
  split <;> rfl

/-- What linting notes when linking a file had an outcome. -/
def noted (source : SourceFile) : Except BuildError LinkedFile → List (Diagnostic LintFinding)
  | .ok linked => linked.unusedImports.map (unusedImport source)
  | .error e => [Diagnostic.inFile source.name { cause := .build e }]

theorem errors_noted_ok (source : SourceFile) (linked : LinkedFile) :
    Diagnostics.errors (noted source (.ok linked)) = [] := by
  refine List.filter_eq_nil_iff.mpr fun d hd => ?_
  obtain ⟨file, -, rfl⟩ := List.mem_map.mp hd
  rw [isError_unusedImport]
  exact Bool.false_ne_true

theorem errors_noted_error (source : SourceFile) (e : BuildError) :
    Diagnostics.errors (noted source (.error e)) ≠ [] :=
  List.cons_ne_nil _ _

theorem errors_append {ε : Type} (a b : List (Diagnostic ε)) :
    Diagnostics.errors (a ++ b) = [] ↔ Diagnostics.errors a = [] ∧ Diagnostics.errors b = [] := by
  rw [Diagnostics.errors, List.filter_append, List.append_eq_nil_iff]
  rfl

theorem exec_lintFile (source : SourceFile) (file : String) (s : PackageSet) :
    (w.lintFile source file).exec s =
      (.ok (noted source ((w.link file).exec s).1), ((w.link file).exec s).2) := by
  rw [lintFile, exec_bind, exec_attempt]
  cases ((w.link file).exec s).1 <;> rfl

theorem exec_lintFile_cons (source : SourceFile) (file : String) (rest : List String)
    (s : PackageSet) {found : List (List (Diagnostic LintFinding))} {s' : PackageSet}
    (h : (rest.mapM (w.lintFile source)).exec ((w.link file).exec s).2 = (.ok found, s')) :
    ((file :: rest).mapM (w.lintFile source)).exec s =
      (.ok (noted source ((w.link file).exec s).1 :: found), s') := by
  rw [List.mapM_cons, exec_bind, exec_lintFile]
  simp only [exec_bind, h, exec_pure]

/-- Linting a file never fails. -/
theorem exists_exec_lintFile (source : SourceFile) (files : List String) (s : PackageSet) :
    ∃ found s', (files.mapM (w.lintFile source)).exec s = (.ok found, s') := by
  induction files generalizing s with
  | nil => exact ⟨[], s, rfl⟩
  | cons file rest ih =>
      obtain ⟨found, s', h⟩ := ih ((w.link file).exec s).2
      exact ⟨_, s', w.exec_lintFile_cons source file rest s h⟩

theorem exec_lintFiles {l : LintedSource} {s s' : PackageSet}
    {found : List (List (Diagnostic LintFinding))}
    (h : (l.files.mapM (w.lintFile l.source)).exec s = (.ok found, s')) :
    (w.lintFiles l).exec s = (.ok
      { file := l.source.name, text := l.source.text,
        diagnostics := l.errors.map (Diagnostic.map .source) ++ found.flatten }, s') := by
  rw [lintFiles, exec_bind, h]
  rfl

theorem exec_lintFiles_cons {l : LintedSource} {rest : List LintedSource} {s s₁ s₂ : PackageSet}
    {report : FileDiagnostics} {reports : List FileDiagnostics}
    (hl : (w.lintFiles l).exec s = (.ok report, s₁))
    (hrest : (rest.mapM w.lintFiles).exec s₁ = (.ok reports, s₂)) :
    ((l :: rest).mapM w.lintFiles).exec s = (.ok (report :: reports), s₂) := by
  rw [List.mapM_cons, exec_bind, hl]
  simp only [exec_bind, hrest, exec_pure]

/-- Linting sources never fails, and reports what conversion found. -/
theorem exists_exec_lintFiles (ls : List LintedSource) (s : PackageSet) :
    ∃ reports s', (ls.mapM w.lintFiles).exec s = (.ok reports, s') ∧
      ∀ l ∈ ls, Diagnostics.errors (l.errors.map (Diagnostic.map LintFinding.source)) ≠ [] →
        Diagnostics.errors (reports.flatMap FileDiagnostics.diagnostics) ≠ [] := by
  induction ls generalizing s with
  | nil => exact ⟨[], s, rfl, fun _ h => absurd h List.not_mem_nil⟩
  | cons l rest ih =>
      obtain ⟨found, s₁, hfound⟩ := w.exists_exec_lintFile l.source l.files s
      obtain ⟨reports, s₂, hreports, herrors⟩ := ih s₁
      refine ⟨_, s₂, w.exec_lintFiles_cons (w.exec_lintFiles hfound) hreports, ?_⟩
      intro l' hl' herror hnil
      rw [List.flatMap_cons, errors_append, errors_append] at hnil
      rcases List.mem_cons.mp hl' with rfl | hl'
      · exact herror hnil.1.1
      · exact herrors l' hl' herror hnil.2

/-! ## Up to the first failure -/

variable {w} {name : String} {a b : PackageSet}

/-- Where linking from one package set fails, linting from the other finds an error, and where
it does not the two are twins again. -/
def Judges {α : Type} (w : Workspace) (name : String) (linked : Except BuildError α × PackageSet)
    (found : List (Diagnostic LintFinding)) (b : PackageSet) : Prop :=
  match linked with
  | (.ok _, a) => Diagnostics.errors found = [] ∧ w.HeldTwin name a b
  | (.error _, _) => Diagnostics.errors found ≠ []

theorem Judges.bind {α β : Type} {x : BuildM α} {f : α → BuildM β}
    {found found' : List (Diagnostic LintFinding)} {b₁ b₂ : PackageSet}
    (hx : w.Judges name (x.exec a) found b₁)
    (hf : ∀ v a₁, w.HeldTwin name a₁ b₁ → w.Judges name ((f v).exec a₁) found' b₂) :
    w.Judges name ((x >>= f).exec a) (found ++ found') b₂ := by
  rw [exec_bind]
  rcases hexec : x.exec a with ⟨e | v, a₁⟩
  · rw [hexec] at hx
    exact fun hnil => hx ((errors_append _ _).mp hnil).1
  · rw [hexec] at hx
    have hv := hf v a₁ hx.2
    show w.Judges name ((f v).exec a₁) (found ++ found') b₂
    rcases hexec' : (f v).exec a₁ with ⟨e | v', a₂⟩
    · rw [hexec'] at hv
      exact fun hnil => hv ((errors_append _ _).mp hnil).2
    · rw [hexec'] at hv
      exact ⟨(errors_append _ _).mpr ⟨hx.1, hv.1⟩, hv.2⟩

theorem Judges.bind_pure {α β : Type} {x : BuildM α} {found : List (Diagnostic LintFinding)}
    (hx : w.Judges name (x.exec a) found b) (f : α → β) :
    w.Judges name ((x >>= fun v => pure (f v)).exec a) found b := by
  have hnil : w.Judges name ((x >>= fun v => pure (f v)).exec a) (found ++ []) b :=
    hx.bind fun _ _ h => ⟨rfl, h⟩
  rwa [List.append_nil] at hnil

theorem judges_lintFile (hw : w.repository.Tidy) (source : SourceFile) (file : String)
    (h : w.HeldTwin name a b) :
    w.Judges name ((w.link file).exec a) (noted source ((w.link file).exec b).1)
      ((w.link file).exec b).2 := by
  obtain ⟨houtcome, hrelated⟩ := w.alike_link hw file h
  rw [← houtcome]
  rcases hexec : (w.link file).exec a with ⟨e | linked, a₁⟩
  · exact errors_noted_error source e
  · rw [hexec] at hrelated
    exact ⟨errors_noted_ok source linked, hrelated⟩

theorem judges_lintFile_all (hw : w.repository.Tidy) (source : SourceFile) (files : List String)
    (h : w.HeldTwin name a b) {found : List (List (Diagnostic LintFinding))} {b' : PackageSet}
    (hfound : (files.mapM (w.lintFile source)).exec b = (.ok found, b')) :
    w.Judges name ((files.mapM w.link).exec a) found.flatten b' := by
  induction files generalizing a b found with
  | nil =>
      cases hfound
      exact ⟨rfl, h⟩
  | cons file rest ih =>
      obtain ⟨found', b₁, hrest⟩ := w.exists_exec_lintFile source rest ((w.link file).exec b).2
      rw [w.exec_lintFile_cons source file rest b hrest] at hfound
      cases hfound
      rw [List.mapM_cons, List.flatten_cons]
      exact (judges_lintFile hw source file h).bind fun _ _ h₁ => (ih h₁ hrest).bind_pure _

/-- Sources without errors are linted as all their files are linked. -/
theorem judges_lintFiles (hw : w.repository.Tidy) (ls : List LintedSource)
    (hls : ∀ l ∈ ls, l.errors = []) (h : w.HeldTwin name a b) {reports : List FileDiagnostics}
    {b' : PackageSet} (hreports : (ls.mapM w.lintFiles).exec b = (.ok reports, b')) :
    w.Judges name (((ls.flatMap LintedSource.files).mapM w.link).exec a)
      (reports.flatMap FileDiagnostics.diagnostics) b' := by
  induction ls generalizing a b reports with
  | nil =>
      cases hreports
      exact ⟨rfl, h⟩
  | cons l rest ih =>
      obtain ⟨found, b₁, hfound⟩ := w.exists_exec_lintFile l.source l.files b
      obtain ⟨reports', b₂, hrest, -⟩ := w.exists_exec_lintFiles rest b₁
      rw [w.exec_lintFiles_cons (w.exec_lintFiles hfound) hrest] at hreports
      cases hreports
      rw [List.flatMap_cons, List.mapM_append, List.flatMap_cons]
      rw [hls l List.mem_cons_self, List.map_nil, List.nil_append]
      refine (judges_lintFile_all hw l.source l.files h hfound).bind fun _ _ h₁ => ?_
      exact (ih (fun l' hl' => hls l' (List.mem_cons_of_mem l hl')) h₁ hrest).bind_pure _

/-! ## What building and linting come to -/

variable (w) {s : PackageSet} {p : Package}

/-- What is built or linked already is only looked up. -/
theorem exec_mapM_cached {α β : Type} {f : β → BuildM α} {l : List β}
    (h : ∀ b ∈ l, ∃ v, (f b).exec s = (.ok v, s)) : ∃ vs, (l.mapM f).exec s = (.ok vs, s) := by
  induction l with
  | nil => exact ⟨[], rfl⟩
  | cons b rest ih =>
      obtain ⟨v, hv⟩ := h b List.mem_cons_self
      obtain ⟨vs, hvs⟩ := ih fun b' hb' => h b' (List.mem_cons_of_mem b hb')
      refine ⟨v :: vs, ?_⟩
      rw [List.mapM_cons, exec_bind, hv]
      simp only [exec_bind, hvs, exec_pure]

theorem exec_build_cached {built : BuiltPackage} (h : s.built.get? name = some built) :
    (w.build name).exec s = (.ok built, s) := by
  rw [build, exec_bind, exec_get]
  simp only [buildFrom, exec_bind, exec_get, h, exec_pure]

theorem exec_link_cached {file : String} {linked : LinkedFile}
    (h : s.linked.get? file = some linked) : (w.link file).exec s = (.ok linked, s) := by
  rw [link, linkFrom, exec_bind, exec_get]
  simp only [h, exec_pure]

/-- Building a package takes what it needs, its conversion, and the linking of its files. -/
theorem build_eq_ok_iff (hs : s.Lifecycle) (hname : s.Resolved name)
    (hp : s.packages.get? name = some p) :
    (∃ built s', (w.build name).exec s = (.ok built, s')) ↔
      ∃ deps s₁ s₂ files s₃, (p.dependencies.mapM w.build).exec s = (.ok deps, s₁) ∧
        (w.materialize name).exec s₁ = (.ok (), s₂) ∧
        (p.produced.mapM w.link).exec s₂ = (.ok files, s₃) := by
  cases hb : s.built.get? name with
  | some built =>
      refine iff_of_true ⟨built, s, w.exec_build_cached hb⟩ ?_
      have hbuilt := (hs.built_iff name).mpr (Dict.contains_iff.mpr ⟨built, hb⟩)
      obtain ⟨q, hq, hstate⟩ := id hbuilt
      rw [hp, Option.some.injEq] at hq
      subst hq
      obtain ⟨hmaterialized, hlinked⟩ := hs.complete name p hp hstate
      obtain ⟨deps, hdeps⟩ := exec_mapM_cached (f := w.build) fun d hd => by
        have hd := (hs.built_iff d).mp (hs.built_closed name d hbuilt ⟨p, hp, hd⟩)
        obtain ⟨b, hb⟩ := Dict.contains_iff.mp hd
        exact ⟨b, w.exec_build_cached hb⟩
      obtain ⟨files, hfiles⟩ := exec_mapM_cached (f := w.link) (l := p.produced) fun file hfile => by
        obtain ⟨source, hsource, hfile⟩ := List.mem_flatMap.mp hfile
        obtain ⟨linked, hl⟩ := Dict.contains_iff.mp (hlinked source hsource file hfile)
        exact ⟨linked, w.exec_link_cached hl⟩
      exact ⟨deps, s, s, files, s, hdeps, w.exec_materialize_of_marked hp hmaterialized, hfiles⟩
  | none =>
      have hbuild : (w.build name).exec s = (p.dependencies.mapM w.build >>= fun deps => do
          w.materialize name
          let files ← p.produced.mapM w.link
          let built : BuiltPackage := { name, files, prose := p.prose, dependencies := deps }
          modify fun s => { s.update name fun p => { p with state := .built } with
            built := s.built.insert name built }
          return built).exec s := by
        rw [build, exec_bind, exec_get]
        simp only [buildFrom, exec_bind (x := get), exec_get, hb]
        rw [exec_package_bind hp, exec_bind, exec_bind, w.exec_build_dependencies hs hname hp]
        rfl
      rw [hbuild]
      constructor
      · rintro ⟨built, s', h⟩
        obtain ⟨deps, s₁, hdeps, h⟩ := exec_bind_eq_ok.mp h
        obtain ⟨_, s₂, hmat, h⟩ := exec_bind_eq_ok.mp h
        obtain ⟨files, s₃, hfiles, -⟩ := exec_bind_eq_ok.mp h
        exact ⟨deps, s₁, s₂, files, s₃, hdeps, hmat, hfiles⟩
      · rintro ⟨deps, s₁, s₂, files, s₃, hdeps, hmat, hfiles⟩
        exact ⟨_, _, exec_bind_eq_ok.mpr ⟨deps, s₁, hdeps, exec_bind_eq_ok.mpr ⟨(), s₂, hmat,
          exec_bind_eq_ok.mpr ⟨files, s₃, hfiles, rfl⟩⟩⟩⟩

/-- Linting takes what the package needs, and then finds no error in what it goes through. -/
theorem lint_eq_ok_iff {s₁ : PackageSet} (hload : (w.load name).exec s = (.ok (), s₁))
    (hp : s₁.packages.get? name = some p) :
    (∃ report s', (w.lint name).exec s = (.ok report, s') ∧ report.errorCount = 0) ↔
      ∃ deps s₂ reports s₃, (p.dependencies.mapM w.build).exec s₁ = (.ok deps, s₂) ∧
        ((p.sources.map (w.linted s₂)).mapM w.lintFiles).exec
          (s₂.addFiles (p.sources.flatMap (w.converted s₂))) = (.ok reports, s₃) ∧
        Diagnostics.errors (reports.flatMap FileDiagnostics.diagnostics) = [] := by
  have hlint : (w.lint name).exec s =
      ((p.dependencies.forM fun d => do let _ ← w.build d) >>= fun _ => do
        let sources ← p.sources.mapM w.lintSource
        let files ← sources.mapM w.lintFiles
        return ({ package := name, files } : LintReport)).exec s₁ := by
    rw [lint, exec_bind, hload]
    exact exec_package_bind hp _
  rw [hlint]
  constructor
  · rintro ⟨report, s', h, hcount⟩
    obtain ⟨_, s₂, hdeps, hrest⟩ := exec_bind_eq_ok.mp h
    obtain ⟨sources, s₃, hsources, hrest'⟩ := exec_bind_eq_ok.mp hrest
    obtain ⟨reports, s₄, hreports, hend⟩ := exec_bind_eq_ok.mp hrest'
    rw [exec_forM_ignore] at hdeps
    rcases hexec : (p.dependencies.mapM w.build).exec s₁ with ⟨e | deps, s₂'⟩
    · rw [hexec] at hdeps
      cases hdeps
    · rw [hexec] at hdeps
      cases hdeps
      rw [w.exec_lintSources] at hsources
      cases hsources
      cases hend
      exact ⟨deps, s₂, reports, s', rfl, hreports, List.length_eq_zero_iff.mp hcount⟩
  · rintro ⟨deps, s₂, reports, s₃, hdeps, hreports, hnil⟩
    refine ⟨{ package := name, files := reports }, s₃, ?_, List.length_eq_zero_iff.mpr hnil⟩
    refine exec_bind_eq_ok.mpr ⟨(), s₂, ?_, ?_⟩
    · rw [exec_forM_ignore, hdeps]
    · refine exec_bind_eq_ok.mpr ⟨_, _, w.exec_lintSources s₂ p.sources, ?_⟩
      exact exec_bind_eq_ok.mpr ⟨reports, s₃, hreports, rfl⟩

variable {w}

/-- All sources can be converted, so linting starts from a twin. -/
theorem exists_twin_of_convertible (hw : w.repository.Tidy) (hheld : s.Held w)
    (hname : s.Resolved name) (hp : s.packages.get? name = some p)
    (hall : ∀ source ∈ p.sources, w.Convertible s source) :
    ∃ a, (w.materialize name).exec s = (.ok (), a) ∧
      w.HeldTwin name a (s.addFiles (p.sources.flatMap (w.converted s))) := by
  have hkept : Kept w (heldFiles w) [] s ((w.materialize name).exec s).2 :=
    ((keeps_heldFiles hw).ensures_materialize name).moves
  have hrank : PackageState.resolved.rank ≤ p.state.rank := by
    obtain ⟨q, hq, hrank⟩ := hname
    rw [hp, Option.some.injEq] at hq
    exact hq ▸ hrank
  by_cases hm : p.materialized = true
  · have hexec := w.exec_materialize_of_marked hp hm
    refine ⟨s, hexec, hheld, ?_⟩
    refine { others := fun _ _ => rfl, own := ⟨p, ?_, hp, hrank⟩, files := ?_, symbols := rfl,
             linked := rfl, linking := rfl }
    · rw [hp, ← hm]
    · exact (hheld.holds name p hp hm).found
  · have hexec := w.exec_materialize_of_convertible hp hm hall
    rw [hexec] at hkept
    refine ⟨_, hexec, hkept.keeps hheld, ?_⟩
    have hp' : (s.addFiles (p.sources.flatMap (w.converted s))).packages.get? name = some p := hp
    refine { others := fun k hk => ?_, own := ⟨p, ?_, hp, hrank⟩, files := fun k => ?_,
             symbols := ?_, linked := ?_, linking := ?_ }
    · rw [PackageSet.get?_update, if_neg hk]
    · rw [PackageSet.get?_update_of_some hp', if_pos rfl]
    · rw [PackageSet.files_update]
    · rw [PackageSet.symbols_update]
    · rw [PackageSet.linked_update]
    · rw [PackageSet.linking_update]

/-- The names that linting takes from the files are those that building takes from the
summaries. -/
theorem files_linted (hw : w.repository.Tidy) (hheld : s.Held w)
    (hp : s.packages.get? name = some p) (hall : ∀ source ∈ p.sources, w.Convertible s source) :
    (p.sources.map (w.linted s)).flatMap LintedSource.files = p.produced ∧
      ∀ l ∈ p.sources.map (w.linted s), l.errors = [] := by
  obtain ⟨contents, hcontents, hsources⟩ := hheld.sources name p hp
  rw [List.flatMap_map]
  constructor
  · refine List.flatMap_congr fun source hsource => ?_
    have hgenuine := hw.genuine name contents hcontents source (hsources ▸ hsource)
    have hconvert := (hall source hsource).convert
    rw [linted, hconvert]
    exact hgenuine.names_of_convert hconvert
  · intro l hl
    obtain ⟨source, hsource, rfl⟩ := List.mem_map.mp hl
    rw [linted, (hall source hsource).convert]

/-- A source that cannot be converted stops a build, and gives an error. -/
theorem materialize_error_of_not_convertible (hheld : s.Held w)
    (hp : s.packages.get? name = some p) (hall : ¬ ∀ source ∈ p.sources, w.Convertible s source) :
    ∃ e s', (w.materialize name).exec s = (.error e, s') := by
  have hm : ¬ p.materialized = true := fun hm => hall (hheld.holds name p hp hm).convertible
  obtain ⟨done, e, -, hexec⟩ := w.exec_materializeSources_error hall
  refine ⟨e, s.addFiles (done.flatMap (w.converted s)), ?_⟩
  rw [materialize, exec_package_bind hp, if_neg hm, exec_bind, hexec]

theorem errors_linted_of_not_convertible {source : SourceFile} (h : ¬ w.Convertible s source) :
    Diagnostics.errors ((w.linted s source).errors.map (Diagnostic.map LintFinding.source)) ≠ [] := by
  cases hconvert : source.convert (w.resolveType s) with
  | ok files => exact absurd ⟨files, hconvert⟩ h
  | error errors =>
      rw [linted, hconvert]
      exact SourceFile.errors_of_convert hconvert

/-- When all that a package needs is built, linting its sources finds no error where they
can be converted and linked. -/
theorem lintFiles_clean_iff (hw : w.repository.Tidy) (hheld : s.Held w) (hname : s.Resolved name)
    (hp : s.packages.get? name = some p) :
    (∃ reports s', ((p.sources.map (w.linted s)).mapM w.lintFiles).exec
        (s.addFiles (p.sources.flatMap (w.converted s))) = (.ok reports, s') ∧
      Diagnostics.errors (reports.flatMap FileDiagnostics.diagnostics) = []) ↔
    ∃ s₁ files s₂, (w.materialize name).exec s = (.ok (), s₁) ∧
      (p.produced.mapM w.link).exec s₁ = (.ok files, s₂) := by
  obtain ⟨reports, s', hreports, herrors⟩ := w.exists_exec_lintFiles (p.sources.map (w.linted s))
    (s.addFiles (p.sources.flatMap (w.converted s)))
  by_cases hall : ∀ source ∈ p.sources, w.Convertible s source
  · obtain ⟨a, hexec, htwin⟩ := exists_twin_of_convertible hw hheld hname hp hall
    obtain ⟨hfiles, hclean⟩ := files_linted hw hheld hp hall
    have hjudged := judges_lintFiles hw _ hclean htwin hreports
    rw [hfiles] at hjudged
    rcases hlink : (p.produced.mapM w.link).exec a with ⟨e | files, a'⟩
    · rw [hlink] at hjudged
      refine iff_of_false ?_ ?_
      · rintro ⟨reports', s'', hreports', hnil⟩
        rw [hreports] at hreports'
        cases hreports'
        exact hjudged hnil
      · rintro ⟨s₁, files, s₂, hmat, hlink'⟩
        rw [hexec] at hmat
        cases hmat
        rw [hlink] at hlink'
        cases hlink'
    · rw [hlink] at hjudged
      exact iff_of_true ⟨reports, s', hreports, hjudged.1⟩ ⟨a, files, a', hexec, hlink⟩
  · refine iff_of_false ?_ ?_
    · rintro ⟨reports', s'', hreports', hnil⟩
      rw [hreports] at hreports'
      cases hreports'
      push Not at hall
      obtain ⟨source, hsource, hnot⟩ := hall
      exact herrors _ (List.mem_map_of_mem hsource) (errors_linted_of_not_convertible hnot) hnil
    · rintro ⟨s₁, files, s₂, hmat, -⟩
      obtain ⟨e, s'', herror⟩ := materialize_error_of_not_convertible hheld hp hall
      rw [herror] at hmat
      cases hmat

theorem kept_builds (hw : w.repository.Tidy) (names : List String) (hheld : s.Held w) :
    Kept w (heldFiles w) [] s ((names.mapM w.build).exec s).2 := by
  refine (Ensures.mapM (P := fun _ _ => True) (E := fun _ _ => True) (fun _ _ _ _ h => h)
    fun d _ s' hk => ?_).moves
  exact ((keeps_heldFiles hw).ensures_build d (hk.keeps hheld)).imp (fun _ h => h)
    (fun _ _ _ _ => trivial) fun _ _ _ h => h

/-- After any calls, a package can be built if and only if it can be linted without errors. -/
theorem lint_clean_iff_compile {w : Workspace} (hw : w.repository.Tidy) {s : PackageSet}
    (hs : Calls (· = w) {} s) (name : String) :
    (∃ report s', (w.lint name).exec s = (.ok report, s') ∧ report.errorCount = 0) ↔
      ∃ built s', (w.compile name).exec s = (.ok built, s') := by
  have hlife : s.Lifecycle := hs.lifecycle PackageSet.lifecycle_empty
  have hheld : s.Held w :=
    hs.invariant (by rintro _ rfl; exact keeps_heldFiles hw) (PackageSet.held_empty w)
  have hload : Ensures (Kept w (heldFiles w) []) (w.load name) s
      (fun _ s' => s'.Resolved name) fun _ _ => True := (keeps_heldFiles hw).ensures_load name
  rcases hexec : (w.load name).exec s with ⟨e | _, s₁⟩
  · -- Neither gets anywhere if the package cannot be loaded.
    refine iff_of_false ?_ ?_
    · rintro ⟨report, s', h, -⟩
      rw [lint, exec_bind, hexec] at h
      cases h
    · rintro ⟨built, s', h⟩
      rw [compile, exec_bind, hexec] at h
      cases h
  · obtain ⟨hkept, hres, -⟩ := hload
    rw [hexec] at hkept hres
    have hname := hres () rfl
    obtain ⟨p, hp, -⟩ := id hname
    have hlife₁ := hkept.steps.lifecycle hlife
    have hcompile : (w.compile name).exec s = (w.build name).exec s₁ := by
      rw [compile, exec_bind, hexec]
    rw [hcompile, w.lint_eq_ok_iff hexec hp, w.build_eq_ok_iff hlife₁ hname hp]
    -- From here both start with the same package set, in which all dependencies are built.
    have hagree : ∀ deps s₂, (p.dependencies.mapM w.build).exec s₁ = (.ok deps, s₂) →
        ((∃ reports s', ((p.sources.map (w.linted s₂)).mapM w.lintFiles).exec
            (s₂.addFiles (p.sources.flatMap (w.converted s₂))) = (.ok reports, s') ∧
          Diagnostics.errors (reports.flatMap FileDiagnostics.diagnostics) = []) ↔
        ∃ s₃ files s₄, (w.materialize name).exec s₂ = (.ok (), s₃) ∧
          (p.produced.mapM w.link).exec s₃ = (.ok files, s₄)) := by
      intro deps s₂ hdeps
      have hkept₂ := kept_builds hw p.dependencies (hkept.keeps hheld)
      rw [hdeps] at hkept₂
      obtain ⟨q, hq, hpq⟩ := hkept₂.extends.packages name p hp
      rw [Package.produced, ← hpq.sources]
      exact lintFiles_clean_iff hw (hkept₂.keeps (hkept.keeps hheld))
        (hkept₂.extends.resolved hname) hq
    constructor
    · rintro ⟨deps, s₂, reports, s₃, hdeps, hreports, hnil⟩
      obtain ⟨s₃, files, s₄, hmat, hlink⟩ := (hagree deps s₂ hdeps).mp ⟨reports, s₃, hreports, hnil⟩
      exact ⟨deps, s₂, s₃, files, s₄, hdeps, hmat, hlink⟩
    · rintro ⟨deps, s₂, s₃, files, s₄, hdeps, hmat, hlink⟩
      obtain ⟨reports, s', hreports, hnil⟩ := (hagree deps s₂ hdeps).mpr ⟨s₃, files, s₄, hmat, hlink⟩
      exact ⟨deps, s₂, reports, s', hdeps, hreports, hnil⟩

theorem tidy_twoPackages : twoPackages.repository.Tidy := by
  have hmem : ∀ name contents, twoPackages.repository.contents name = .ok contents →
      ∃ file dependencies, contents = { sources := [.ofParsed
        ⟨{ name := some file, dependencies }, {}⟩ none] } ∧
        (name, file) ∈ [("a.v1", "a/v1/a.proto"), ("b.v1", "b/v1/b.proto")] := by
    intro name contents hcontents
    have hentry := Repository.mem_entries_of_contents hcontents
    rcases List.mem_cons.mp hentry with h | h
    · cases h
      exact ⟨_, _, rfl, by decide⟩
    · cases List.mem_singleton.mp h
      exact ⟨_, _, rfl, by decide⟩
  constructor
  · intro name contents hcontents source hsource
    obtain ⟨file, dependencies, rfl, -⟩ := hmem name contents hcontents
    exact Or.inr ⟨_, none, List.mem_singleton.mp hsource⟩
  · rintro a b file ⟨_, ha, source, hsource, hfile⟩ ⟨_, hb, source', hsource', hfile'⟩
    obtain ⟨file₁, dependencies₁, rfl, hmem₁⟩ := hmem a _ ha
    obtain ⟨file₂, dependencies₂, rfl, hmem₂⟩ := hmem b _ hb
    cases List.mem_singleton.mp hsource
    cases List.mem_singleton.mp hsource'
    cases List.mem_singleton.mp hfile
    cases List.mem_singleton.mp hfile'
    revert hmem₁ hmem₂
    simp only [List.mem_cons, Prod.mk.injEq, List.not_mem_nil, or_false]
    rintro (⟨rfl, h⟩ | ⟨rfl, h⟩) (⟨rfl, h'⟩ | ⟨rfl, h'⟩)
    · rfl
    · exact absurd (h.symm.trans h') (by decide)
    · exact absurd (h.symm.trans h') (by decide)
    · rfl

/-- After a call that failed, `a.v1` can be built, so it can be linted without errors. -/
theorem lint_clean_iff_compile_twoPackages :
    twoPackages.repository.Tidy ∧
    ∃ s, Calls (· = twoPackages) {} s ∧ s.Resolved "b.v1" ∧
      ∃ report s', (twoPackages.lint "a.v1").exec s = (.ok report, s') ∧ report.errorCount = 0 := by
  have hs : Calls (· = twoPackages) {} (Call.after twoPackages {} (.buildOrder ["b.v1", "c.v1"])) :=
    .single ⟨twoPackages, rfl, _, rfl⟩
  refine ⟨tidy_twoPackages, _, hs, ⟨_, rfl, by decide⟩, ?_⟩
  exact (lint_clean_iff_compile tidy_twoPackages hs "a.v1").mpr ⟨_, _, rfl⟩

/-- Both packages have a file `a/v1/y.proto`, and `m.v1` has the file that `a.v1` imports. -/
def sharedFile : Workspace where
  repository :=
    { packages := .ofList
        [("a.v1", .ok { sources :=
            [.ofParsed ⟨{ name := some "a/v1/x.proto", dependencies := ["q/w.proto"] }, {}⟩ none,
             .ofParsed ⟨{ name := some "a/v1/y.proto" }, {}⟩ none] }),
         ("m.v1", .ok { sources :=
            [.ofParsed ⟨{ name := some "q/w.proto" }, {}⟩ none,
             .ofParsed ⟨{ name := some "a/v1/y.proto", dependencies := ["nowhere.proto"] }, {}⟩
               none] })] }
  catalog := {}

/-- Where two packages have a file of one name, linting can be without errors and building fail.
The conversion of `m.v1` puts its own `a/v1/y.proto` in the place of that of `a.v1`.  Linting
`a.v1` converts the package once more, while building takes it as converted. -/
theorem lint_clean_not_compile_sharedFile :
    ∃ s, Calls (· = sharedFile) {} s ∧
      (∃ report s', (sharedFile.lint "a.v1").exec s = (.ok report, s') ∧ report.errorCount = 0) ∧
      ¬ ∃ built s', (sharedFile.compile "a.v1").exec s = (.ok built, s') := by
  have hs : Calls (· = sharedFile) {} (Call.after sharedFile
      (Call.after sharedFile {} (.compile "a.v1")) (.compile "m.v1")) :=
    .tail (.single ⟨sharedFile, rfl, _, rfl⟩) ⟨sharedFile, rfl, _, rfl⟩
  refine ⟨_, hs, ⟨_, _, rfl, rfl⟩, ?_⟩
  rintro ⟨built, s', h⟩
  cases h

end Workspace
end Schematic
