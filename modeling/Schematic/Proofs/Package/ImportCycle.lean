import Schematic.Proofs.Package.Depth
import Schematic.Proofs.Package.Found

/-!
# Files that import each other

A file is linked behind its imports, so imports that go round in a circle can never be linked.  The
files being linked are kept on a stack, and a file that is met while it stands there closes a
circle.  The stack holds files that can be found, each once, so it never gets higher than there
are files, and the bound on the recursion is never felt.
-/

namespace Schematic

open Relation BuildM

namespace Workspace

variable (w : Workspace)

/-- A file that can be found under `a` imports `b`. -/
def Imports (a b : String) : Prop :=
  ∃ f, w.Finds a f ∧ b ∈ f.dependencies

/-- The repository or a dependency set gives `e` as the reason why something cannot be had. -/
def Reports (e : BuildError) : Prop :=
  w.repository.Reports e ∨ ∃ d ∈ w.dependencies, ∃ file, d.get? file = .error e

/-- The chain goes from import to import and ends with a file that it had before. -/
def ImportCycle (chain : List String) : Prop :=
  chain.IsChain w.Imports ∧ ∃ before last, chain = before ++ [last] ∧ last ∈ before ∧ before.Nodup

/-- An error says that files import each other only where they do, or where it was reported. -/
def Truthful (e : BuildError) : Prop :=
  ∀ chain, e = .importCycle chain → w.Reports e ∨ w.ImportCycle chain

variable {w}

theorem Truthful.of_ne {e : BuildError} (h : ∀ chain, e ≠ .importCycle chain) : w.Truthful e :=
  fun chain he => absurd he (h chain)

/-! ## Loading and finding -/

variable {s : PackageSet}

theorem truthful_of_loadFailure {chain : List String} {name : String} {e : BuildError}
    (h : LoadFailure w.repository chain name e s) : w.Truthful e := by
  cases h with
  | circular => exact .of_ne fun _ h => by cases h
  | missing => exact .of_ne fun _ h => by cases h
  | unreadable _ hread =>
      exact fun _ _ => Or.inl (Or.inl (Repository.reports_of_summarize_error hread))

theorem reports_of_dependencyFile {file : String} {e : BuildError} {sets : List DependencySet}
    (h : dependencyFile file sets = .error e) : ∃ d ∈ sets, d.get? file = .error e := by
  induction sets with
  | nil => cases h
  | cons d rest ih =>
      rcases bind_eq_error h with h | ⟨found, -, h⟩
      · exact ⟨d, List.mem_cons_self, h⟩
      · cases found with
        | some f => cases h
        | none =>
            obtain ⟨d', hd', hget⟩ := ih h
            exact ⟨d', List.mem_cons_of_mem d hd', hget⟩

theorem truthful_of_foreignFile {file : String} {e : BuildError}
    (h : ((w.foreignFile file).exec s).1 = .error e) : w.Truthful e := by
  rw [exec_foreignFile] at h
  cases hf : w.foreign? file with
  | ok found =>
      cases found with
      | some f =>
          rw [hf] at h
          cases h
      | none =>
          rw [hf] at h
          cases h
          exact .of_ne fun _ h => by cases h
  | error e' =>
      rw [hf] at h
      cases h
      rcases bind_eq_error hf with hf | ⟨found, -, hf⟩
      · obtain ⟨d, hd, hget⟩ := reports_of_dependencyFile hf
        exact fun _ _ => Or.inl (Or.inr ⟨d, hd, file, hget⟩)
      · cases found <;> cases hf

theorem truthful_materialize (w : Workspace) (fixed : List String) (name : String) :
    Ensures (Evolves w fixed) (w.materialize name) s (fun _ _ => True) fun e _ => w.Truthful e := by
  refine .bind ((Workspace.ensures_package name).imp (fun _ h => h) (fun _ _ _ h => h) ?_)
    fun p s' _ _ => ?_
  · rintro _ _ _ ⟨rfl, -⟩
    exact .of_ne fun _ h => by cases h
  by_cases hm : p.materialized = true
  · rw [if_pos hm]
    exact .pure trivial
  rw [if_neg hm]
  refine .bind (.forM (P := fun _ _ => True) (fun _ _ _ _ h => h) fun source _ s₁ _ => .get ?_)
    fun _ s₂ _ _ => .modify (.of_update (.materialize s₂ name)) trivial
  cases source.convert (w.resolveType s₁) with
  | ok files => exact .modify (w.evolves_addFiles files) trivial
  | error errors => exact .throw (.of_ne fun _ h => by cases h)

theorem truthful_load (w : Workspace) (fixed : List String) (name : String) :
    Ensures (Evolves w fixed) (w.load name) s (fun _ _ => True) fun e _ => w.Truthful e :=
  (w.ensures_load name).imp (fun _ h => h.evolves) (fun _ _ _ _ => trivial)
    fun _ _ _ h => truthful_of_loadFailure h

theorem truthful_resolveFile (w : Workspace) (fixed : List String) (file : String) :
    Ensures (Evolves w fixed) (w.resolveFile file) s (fun _ _ => True) fun e _ => w.Truthful e := by
  refine .get ?_
  cases hfile : s.files.get? file with
  | some f => exact .pure trivial
  | none =>
      refine .bind (P := fun found s' => s' = s ∧ w.repository.packageOf file = .ok found)
        (.lift (fun _ hfound => ⟨rfl, hfound⟩) fun e he => ?_) ?_
      · exact fun _ _ => Or.inl (Or.inl (Or.inr ⟨file, he⟩))
      rintro ⟨name, isLocal⟩ s' - ⟨rfl, hfound⟩
      cases isLocal with
      | false =>
          simp only [Bool.false_eq_true, if_false]
          have hkept : Kept w .trivial fixed s' ((w.foreignFile file).exec s').2 :=
            (w.keeps_trivial.ensures_foreignFile hfile hfound trivial).moves
          exact ⟨hkept.toEvolves, fun _ _ => trivial, fun _ he => truthful_of_foreignFile he⟩
      | true =>
          simp only [if_true]
          refine .bind (w.truthful_load fixed name) fun _ s₁ _ _ => ?_
          refine .bind (w.truthful_materialize fixed name) fun _ s₂ _ _ => .get ?_
          cases s₂.files.get? file with
          | some f => exact .pure trivial
          | none => exact .throw (.of_ne fun _ h => by cases h)

/-! ## The stack -/

variable (w) in
/-- Files being linked, each imported by the one before it, and `file` by the last of them. -/
structure Stack (linking : List String) (file : String) : Prop where
  nodup : linking.Nodup
  known : linking ⊆ w.fileNames
  path : (linking ++ [file]).IsChain w.Imports

theorem Stack.start (file : String) : w.Stack [] file where
  nodup := List.nodup_nil
  known := List.nil_subset _
  path := List.isChain_singleton file

theorem Stack.length_le {linking : List String} {file : String} (h : w.Stack linking file) :
    linking.length ≤ w.fileNames.length :=
  (h.nodup.subperm h.known).length_le

/-- A file that is not on the stack is put there, and one of its imports is next. -/
theorem Stack.enter {linking : List String} {file d : String} {f : FileDescriptor}
    (h : w.Stack linking file) (hnew : file ∉ linking) (hf : w.Finds file f)
    (hd : d ∈ f.dependencies) : w.Stack (linking ++ [file]) d where
  nodup := List.nodup_append.mpr ⟨h.nodup, List.nodup_singleton file, by
    rintro a ha b hb rfl
    exact hnew (List.mem_singleton.mp hb ▸ ha)⟩
  known := by
    rw [List.append_subset, List.cons_subset]
    exact ⟨h.known, hf.mem_fileNames, List.nil_subset _⟩
  path := by
    refine List.isChain_append.mpr ⟨h.path, List.isChain_singleton d, ?_⟩
    intro a ha b hb
    rw [List.getLast?_concat, Option.mem_some_iff] at ha
    rw [List.head?_cons, Option.mem_some_iff] at hb
    exact ha ▸ hb ▸ ⟨f, hf, hd⟩

theorem Stack.importCycle {linking : List String} {file : String} (h : w.Stack linking file)
    (hin : file ∈ linking) : w.ImportCycle (linking ++ [file]) :=
  ⟨h.path, linking, file, rfl, hin, h.nodup⟩

/-! ## Linking -/

theorem link_of_linkAlone_error {file : String} {f : FileDescriptor} {e : BuildError}
    (h : ((linkAlone file f).exec s).1 = .error e) : ∃ cause, e = .link file cause := by
  rw [linkAlone, exec_bind, exec_get] at h
  cases himport : s.symbols.importFile f with
  | error cause =>
      simp only [himport] at h
      cases h
      exact ⟨cause, rfl⟩
  | ok symbols =>
      simp only [himport, exec_bind, exec_modify] at h
      cases hlink : symbols.link f with
      | error cause =>
          simp only [hlink] at h
          cases h
          exact ⟨cause, rfl⟩
      | ok linked =>
          simp only [hlink, exec_bind, exec_modify, exec_pure] at h
          cases h

/-- Linking says that files import each other only where they do. -/
theorem truthful_linkFrom (hw : w.NamesFiles) {depth : Nat} {file : String} (hs : s.Found w)
    (hstack : w.Stack s.linking file) (hdepth : w.fileNames.length < depth + s.linking.length) :
    Ensures (Kept w (foundFiles w) s.linking) (w.linkFrom depth file) s
      (fun linked s' => s'.linked.get? file = some linked) fun e _ => w.Truthful e := by
  induction depth generalizing file s with
  | zero =>
      have hle := hstack.length_le
      omega
  | succ depth ih =>
      rw [linkFrom]
      refine .get ?_
      cases hnew : s.linked.get? file with
      | some linked => exact .pure hnew
      | none =>
          refine .get ?_
          by_cases hin : file ∈ s.linking
          · simp only [List.contains_iff_mem, hin, if_true]
            refine .get (.throw ?_)
            rintro _ ⟨⟩
            exact Or.inr (hstack.importCycle hin)
          · simp only [List.contains_iff_mem, hin, if_false]
            refine .bind ((hw.keeps_found.ensures_resolveFile_new hs hnew).with_errors
              (w.truthful_resolveFile [] file).error) ?_
            rintro f s₁ h₁ ⟨hf, hnew₁⟩
            refine hw.keeps_found.ensures_whileLinking ?_ fun _ _ _ h => h
            refine .bind (Keeps.ensures_imports (hw.keeps_found.linking (h₁.keeps hs))
              (by rw [h₁.linking]) hnew₁ fun d hd s' _ hs' hlinking => ?_) ?_
            · refine ih hs' (hlinking ▸ hstack.enter hin hf hd) ?_
              rw [hlinking, List.length_append, List.length_singleton]
              omega
            · rintro _ s₂ - ⟨hnew₂, himports⟩
              have hlink := hw.keeps_found.ensures_linkAlone hin hf hnew₂ himports
              refine hlink.with_errors fun e he => ?_
              obtain ⟨cause, rfl⟩ := link_of_linkAlone_error he
              exact .of_ne fun _ h => by cases h

theorem truthful_link (hw : w.NamesFiles) (file : String) (hs : s.Found w)
    (hlinking : s.linking = []) :
    Ensures (Kept w (foundFiles w) []) (w.link file) s (fun _ _ => True)
      fun e _ => w.Truthful e := by
  have hlink : Ensures (Kept w (foundFiles w) s.linking) (w.link file) s
      (fun linked s' => s'.linked.get? file = some linked) fun e _ => w.Truthful e :=
    truthful_linkFrom hw hs (hlinking ▸ Stack.start file) (by omega)
  rw [hlinking] at hlink
  exact hlink.imp (fun _ h => h) (fun _ _ _ _ => trivial) fun _ _ _ h => h

theorem exec_imports_congr (hw : w.NamesFiles) {depth depth' : Nat} {dependencies : List String}
    (hs : s.Found w)
    (h : ∀ d ∈ dependencies, ∀ s' : PackageSet, s'.Found w → s'.linking = s.linking →
      (w.linkFrom depth' d).exec s' = (w.linkFrom depth d).exec s') :
    (dependencies.forM fun d => do
      let _ ← w.linkFrom depth' d).exec s =
    (dependencies.forM fun d => do
      let _ ← w.linkFrom depth d).exec s := by
  rw [exec_forM_ignore, exec_forM_ignore,
    exec_mapM_congr (R := Kept w (foundFiles w) s.linking) ?_ ?_]
  · intro d _ s' hk
    have hlink : Ensures (Kept w (foundFiles w) s'.linking) (w.linkFrom depth d) s'
        (fun linked s'' => s''.linked.get? d = some linked) fun _ _ => True :=
      hw.keeps_found.ensures_linkFrom (hk.keeps hs)
    rw [hk.linking] at hlink
    exact hlink.moves
  · exact fun d hd s' hk => h d hd s' (hk.keeps hs) hk.linking

/-- A file is linked in the same way whatever bound is taken, if it is above the number of files. -/
theorem exec_linkFrom_congr (hw : w.NamesFiles) {depth depth' : Nat} {file : String}
    (hs : s.Found w) (hstack : w.Stack s.linking file)
    (hdepth : w.fileNames.length < depth + s.linking.length)
    (hdepth' : w.fileNames.length < depth' + s.linking.length) :
    (w.linkFrom depth' file).exec s = (w.linkFrom depth file).exec s := by
  have hle := hstack.length_le
  induction depth generalizing depth' file s with
  | zero => omega
  | succ depth ih =>
      cases depth' with
      | zero => omega
      | succ depth' =>
          rw [linkFrom, linkFrom, exec_bind, exec_bind, exec_get]
          dsimp only
          cases hnew : s.linked.get? file with
          | some linked => rfl
          | none =>
              dsimp only
              rw [exec_bind, exec_bind, exec_get]
              by_cases hin : file ∈ s.linking
              · simp only [List.contains_iff_mem, hin, if_true]
              simp only [List.contains_iff_mem, hin, if_false]
              have hresolve : Ensures (Kept w (foundFiles w) []) (w.resolveFile file) s
                  (fun f _ => w.Finds file f) fun _ _ => True :=
                hw.keeps_found.ensures_resolveFile file hs
              have hkept := hresolve.moves
              have hfinds := hresolve.ok
              rw [exec_bind, exec_bind]
              rcases hexec : (w.resolveFile file).exec s with ⟨e | f, s₁⟩
              · rfl
              rw [hexec] at hkept hfinds
              dsimp only
              have himports : (f.dependencies.forM fun d => do
                  let _ ← w.linkFrom depth' d).exec { s₁ with linking := s₁.linking ++ [file] } =
                  (f.dependencies.forM fun d => do
                  let _ ← w.linkFrom depth d).exec { s₁ with linking := s₁.linking ++ [file] } := by
                refine exec_imports_congr hw (hw.keeps_found.linking (hkept.keeps hs))
                  fun d hd s' hs' hlinking => ?_
                have hstack' : w.Stack s'.linking d := by
                  rw [hlinking, hkept.linking]
                  exact hstack.enter hin (hfinds f rfl) hd
                have hlength : s'.linking.length = s.linking.length + 1 := by
                  rw [hlinking, hkept.linking, List.length_append, List.length_singleton]
                exact ih hs' hstack' (by omega) (by omega) hstack'.length_le
              rw [exec_whileLinking, exec_whileLinking, exec_bind, exec_bind, himports]

/-! ## Building -/

theorem truthful_compile (hw : w.NamesFiles) {name : String} (hs : s.Found w)
    (hlinking : s.linking = []) {e : BuildError} (he : ((w.compile name).exec s).1 = .error e) :
    w.Truthful e := by
  have hcompile : Ensures (Kept w (foundFiles w) []) (w.compile name) s
      (fun b s' => s'.built.get? name = some b) fun e _ => w.Truthful e := by
    refine .bind ((hw.keeps_found.ensures_load name).with_errors (w.truthful_load [] name).error)
      fun _ s₁ h₁ _ => .get ?_
    refine hw.keeps_found.ensures_buildFrom_errors (h₁.keeps hs)
      (fun n => .of_ne fun _ h => by cases h) (fun n s' => (w.truthful_materialize [] n).error)
      fun file s' e hs' hsame => ?_
    exact (truthful_link hw file hs' (hsame.trans (h₁.linking.trans hlinking))).error e
  exact hcompile.error e he

/-! ## What is reached from a package -/

theorem linked_of_reaches (hs : s.ImportsLinked) {a b : String}
    (ha : s.linked.contains a = true) (h : ReflTransGen s.Imports a b) :
    s.linked.contains b = true := by
  induction h with
  | refl => exact ha
  | tail _ hbc _ => exact hs.closed _ _ hbc

/-- Where a package compiles, all that its files import is linked and no file imports itself in the
end.  Where it fails since files import each other, they do, and the error says how.  Linking does
not depend on the bound that it is given, so it comes to an end by itself. -/
theorem compile_importCycle {w : Workspace} (hw : w.NamesFiles) {s : PackageSet}
    (hs : Calls (· = w) {} s) (name : String) :
    (∀ b s', (w.compile name).exec s = (.ok b, s') → ∃ p, s'.packages.get? name = some p ∧
      ∀ source ∈ p.sources, ∀ file ∈ source.summary.produces, ∀ g, ReflTransGen s'.Imports file g →
        s'.linked.contains g = true ∧ ¬ TransGen s'.Imports g g) ∧
    (∀ chain s', (w.compile name).exec s = (.error (.importCycle chain), s') →
      w.Reports (.importCycle chain) ∨ w.ImportCycle chain) ∧
    ∀ depth file, w.fileNames.length < depth →
      (w.linkFrom depth file).exec s = (w.link file).exec s := by
  have hfound := hs.found hw
  have hlinking : s.linking = [] := hs.linking
  refine ⟨fun b s' hok => ?_, fun chain s' herror => ?_, fun depth file hdepth => ?_⟩
  · have hlinked : linkedFiles.set s := hs.linkedFiles (by rintro _ rfl; exact hw)
    have hcompile := hw.keeps.ensures_compile name hlinked
    have hcached := hcompile.ok b
    have hkept := hcompile.moves.keeps hlinked
    rw [hok] at hcached hkept
    obtain ⟨-, himports, hdelivers⟩ := hkept
    obtain ⟨rfl, hb⟩ := hdelivers name b (hcached rfl)
    cases hb with
    | @mk _ p _ _ _ hp hfiles _ _ =>
        refine ⟨p, hp, fun source hsource file hfile g hg => ?_⟩
        obtain ⟨l, -, hl⟩ := exists_of_forall₂ hfiles
          (List.mem_flatMap.mpr ⟨source, hsource, hfile⟩)
        exact ⟨linked_of_reaches himports (Dict.contains_iff.mpr ⟨l, hl⟩) hg, himports.acyclic g⟩
  · have htruthful := truthful_compile hw hfound hlinking (e := .importCycle chain) (by rw [herror])
    exact htruthful chain rfl
  · refine exec_linkFrom_congr hw hfound (hlinking ▸ Stack.start file) ?_ ?_
    · rw [hlinking]
      omega
    · rw [hlinking]
      exact hdepth

/-- A package with two files that import each other. -/
def importCircle : Workspace where
  repository :=
    { packages := .ofList [("a.v1", .ok
        { sources :=
            [.ofParsed ⟨{ name := some "a/v1/a.proto", dependencies := ["a/v1/b.proto"] }, {}⟩ none,
             .ofParsed ⟨{ name := some "a/v1/b.proto", dependencies := ["a/v1/a.proto"] }, {}⟩ none]
        })] }
  catalog := {}

theorem namesFiles_importCircle : importCircle.NamesFiles :=
  .of_alone rfl rfl

theorem compile_importCycle_importCircle :
    importCircle.NamesFiles ∧ Calls (· = importCircle) {} {} ∧
    ((importCircle.compile "a.v1").exec {}).1 =
      .error (.importCycle ["a/v1/a.proto", "a/v1/b.proto", "a/v1/a.proto"]) ∧
    (∀ b s', (importCircle.compile "a.v1").exec {} = (.ok b, s') →
      ∃ p, s'.packages.get? "a.v1" = some p ∧
      ∀ source ∈ p.sources, ∀ file ∈ source.summary.produces, ∀ g, ReflTransGen s'.Imports file g →
        s'.linked.contains g = true ∧ ¬ TransGen s'.Imports g g) ∧
    (∀ chain s', (importCircle.compile "a.v1").exec {} = (.error (.importCycle chain), s') →
      importCircle.Reports (.importCycle chain) ∨ importCircle.ImportCycle chain) ∧
    ∀ depth file, importCircle.fileNames.length < depth →
      (importCircle.linkFrom depth file).exec {} = (importCircle.link file).exec {} :=
  ⟨namesFiles_importCircle, .refl, rfl,
    compile_importCycle namesFiles_importCircle .refl "a.v1"⟩

end Workspace
end Schematic
