import Schematic.Proofs.Package.Found

/-!
# Types and their files

A type of another package is looked for in the files of that package, in one dependency set after
the other and then in the catalog.  A file is looked for by its name: among the files found before,
in the local package that its path stands for, and then in the first dependency set that has the
name.  The second search comes upon the file that the first found the type in, unless another file
of that name is in its way.
-/

namespace Schematic

open Relation BuildM

/-! ## The types of a file -/

mutual

theorem MessageDescriptor.file_of_mem_types {package file outer : String} {t : TypeRef} :
    (m : MessageDescriptor) → t ∈ m.types package file outer → t.file = file
  | { name, nested, enums, options, .. }, h => by
      rw [types] at h
      split at h
      · cases h
      · rcases List.mem_append.mp h with h | h
        · rcases List.mem_cons.mp h with rfl | h
          · rfl
          · exact MessageDescriptor.file_of_mem_typesList nested h
        · obtain ⟨e, -, rfl⟩ := List.mem_map.mp h
          rfl

theorem MessageDescriptor.file_of_mem_typesList {package file outer : String} {t : TypeRef} :
    (ms : List MessageDescriptor) → t ∈ typesList package file outer ms → t.file = file
  | [], h => by
      rw [typesList] at h
      cases h
  | m :: rest, h => by
      rw [typesList] at h
      rcases List.mem_append.mp h with h | h
      · exact MessageDescriptor.file_of_mem_types m h
      · exact MessageDescriptor.file_of_mem_typesList rest h

end

theorem FileDescriptor.file_of_mem_types {f : FileDescriptor} {t : TypeRef} (h : t ∈ f.types) :
    t.file = f.nameText := by
  rcases List.mem_append.mp h with h | h
  · exact MessageDescriptor.file_of_mem_typesList f.messages h
  · obtain ⟨e, -, rfl⟩ := List.mem_map.mp h
    rfl

theorem FileDescriptor.of_get?_exports {f : FileDescriptor} {full : String} {t : TypeRef}
    (h : f.summary.exports.get? full = some t) : t.file = f.nameText ∧ t.fullName = full := by
  obtain ⟨t', ht', heq⟩ := List.mem_map.mp (Dict.mem_of_get?_ofList h)
  cases heq
  exact ⟨file_of_mem_types ht', rfl⟩

/-! ## The search for a type -/

/-- The files of a package that the set has and can read. -/
def DependencySet.packageFiles (d : DependencySet) (package : String) : List FileDescriptor :=
  (d.list (Text.replace '.' "/" package)).filterMap fun name =>
    match d.get? name with
    | .ok (some f) => if f.packageText = package then some f else none
    | _ => none

theorem DependencySet.get?_of_mem_packageFiles {d : DependencySet} {package : String}
    {f : FileDescriptor} (h : f ∈ d.packageFiles package) : ∃ file, d.get? file = .ok (some f) := by
  obtain ⟨file, -, hfile⟩ := List.mem_filterMap.mp h
  refine ⟨file, ?_⟩
  split at hfile
  · rename_i g hg
    split at hfile
    · cases hfile
      exact hg
    · cases hfile
  · cases hfile

theorem DependencySet.nameText_of_ofFiles {files : List FileDescriptor} {file : String}
    {f : FileDescriptor} (h : (ofFiles files).get? file = .ok (some f)) : f.nameText = file := by
  unfold get? at h
  split at h
  · rename_i g hg
    cases h
    obtain ⟨g, -, hentry⟩ := List.mem_map.mp (Dict.mem_of_get?_ofList hg)
    cases hentry
    rfl
  · cases h
  · cases h
  · cases h

namespace Workspace

variable {w : Workspace} {package full : String} {t : TypeRef}

theorem typeIn_append (full : String) (fs gs : List FileDescriptor) :
    typeIn full (fs ++ gs) = (typeIn full fs).or (typeIn full gs) :=
  List.findSome?_append

theorem exists_of_typeIn {files : List FileDescriptor} (h : typeIn full files = some t) :
    ∃ f ∈ files, f.summary.exports.get? full = some t :=
  List.exists_of_findSome?_eq_some h

theorem dependencyFiles_eq (w : Workspace) (package : String) :
    w.dependencyFiles package = w.dependencies.flatMap fun d => d.packageFiles package :=
  rfl

/-- The dependency sets that are asked for a type before one has it. -/
def askedBefore (sets : List DependencySet) (package full : String) : List DependencySet :=
  sets.takeWhile fun d => (typeIn full (d.packageFiles package)).isNone

/-- The file of a type that a dependency set has, if no set before has a file of that name. -/
theorem dependencyFile_of_typeIn {sets : List DependencySet}
    (hnames : ∀ d ∈ sets, ∀ file f, d.get? file = .ok (some f) → f.nameText = file)
    (hbefore : ∀ d ∈ askedBefore sets package full, d.get? t.file = .ok none)
    (h : typeIn full (sets.flatMap fun d => d.packageFiles package) = some t) :
    ∃ f, dependencyFile t.file sets = .ok (some f) ∧ f.summary.exports.get? full = some t := by
  induction sets with
  | nil => cases h
  | cons d rest ih =>
      rw [List.flatMap_cons, typeIn_append] at h
      cases hd : typeIn full (d.packageFiles package) with
      | some found =>
          rw [hd, Option.some_or, Option.some.injEq] at h
          subst h
          obtain ⟨f, hf, hexports⟩ := exists_of_typeIn hd
          obtain ⟨file, hget⟩ := DependencySet.get?_of_mem_packageFiles hf
          have hname := hnames d List.mem_cons_self file f hget
          have hfile : found.file = file := (FileDescriptor.of_get?_exports hexports).1.trans hname
          refine ⟨f, ?_, hexports⟩
          rw [dependencyFile, hfile, hget]
          rfl
      | none =>
          rw [hd, Option.none_or] at h
          rw [askedBefore, List.takeWhile_cons_of_pos (by rw [hd]; rfl)] at hbefore
          obtain ⟨f, hf, hexports⟩ := ih (fun d' hd' => hnames d' (List.mem_cons_of_mem d hd'))
            (fun d' hd' => hbefore d' (List.mem_cons_of_mem d hd')) h
          refine ⟨f, ?_, hexports⟩
          rw [dependencyFile, hbefore d List.mem_cons_self]
          exact hf

theorem dependencyFile_of_no_type {sets : List DependencySet}
    (hbefore : ∀ d ∈ askedBefore sets package full, d.get? t.file = .ok none)
    (h : typeIn full (sets.flatMap fun d => d.packageFiles package) = none) :
    dependencyFile t.file sets = .ok none := by
  induction sets with
  | nil => rfl
  | cons d rest ih =>
      rw [List.flatMap_cons, typeIn_append, Option.or_eq_none_iff] at h
      rw [askedBefore, List.takeWhile_cons_of_pos (by rw [h.1]; rfl)] at hbefore
      rw [dependencyFile, hbefore d List.mem_cons_self]
      exact ih (fun d' hd' => hbefore d' (List.mem_cons_of_mem d hd')) h.2

/-! ## The search for its file -/

/-- No other file of that name is in the way of the file that a type was found in. -/
structure Unrivalled (w : Workspace) (package : String) (t : TypeRef) : Prop where
  /-- The path of the file does not stand for a local package. -/
  outside : ∃ owner, w.repository.packageOf t.file = .ok (owner, false)
  /-- No local source is converted to a file of that name. -/
  unmade : ∀ name f, w.Makes name f → f.nameText ≠ t.file
  /-- No dependency set has the name that is asked for the type in vain. -/
  before : ∀ d ∈ askedBefore w.dependencies package t.fullName, d.get? t.file = .ok none

theorem catalog_get?_of_typeIn (hw : w.NamesFiles) (hcatalog : w.catalog.files.Ascending)
    (h : typeIn full (w.catalog.filesInPackage package) = some t) :
    ∃ f, w.catalog.get? t.file = some f ∧ f.summary.exports.get? full = some t := by
  obtain ⟨f, hf, hexports⟩ := exists_of_typeIn h
  obtain ⟨⟨file, _⟩, hentry, rfl⟩ := List.mem_map.mp (List.mem_filter.mp hf).1
  have hget : w.catalog.get? file = some _ := hcatalog.mem_entries_iff.mp hentry
  have hfile := (FileDescriptor.of_get?_exports hexports).1.trans (hw.catalog file _ hget)
  exact ⟨_, hfile ▸ hget, hexports⟩

/-- Whatever has the type, its file is the one that is found under its name outside. -/
theorem foreign_of_typeIn (hw : w.NamesFiles) (hcatalog : w.catalog.files.Ascending)
    (hbefore : ∀ d ∈ askedBefore w.dependencies package full, d.get? t.file = .ok none)
    (h : typeIn full (w.dependencyFiles package ++ w.catalog.filesInPackage package) = some t) :
    ∃ f, w.foreign? t.file = .ok (some f) ∧ f.summary.exports.get? full = some t := by
  rw [dependencyFiles_eq, typeIn_append] at h
  cases hsets : typeIn full (w.dependencies.flatMap fun d => d.packageFiles package) with
  | some found =>
      rw [hsets, Option.some_or, Option.some.injEq] at h
      subst h
      obtain ⟨f, hf, hexports⟩ := dependencyFile_of_typeIn hw.dependencies hbefore hsets
      refine ⟨f, ?_, hexports⟩
      rw [foreign?, hf]
      rfl
  | none =>
      rw [hsets, Option.none_or] at h
      obtain ⟨f, hf, hexports⟩ := catalog_get?_of_typeIn hw hcatalog h
      refine ⟨f, ?_, hexports⟩
      rw [foreign?, dependencyFile_of_no_type hbefore hsets, ← hf]
      rfl

theorem typeIn_of_resolveType {s : PackageSet} (hs : s.Summarized w.repository)
    (hlocal : w.repository.isLocal package = false) {name : String}
    (h : w.resolveType s package name = .ok t) :
    typeIn (package ++ "." ++ name)
      (w.dependencyFiles package ++ w.catalog.filesInPackage package) = some t := by
  have hnone : s.packages.get? package = none := by
    cases hp : s.packages.get? package with
    | none => rfl
    | some p =>
        obtain ⟨summary, hsummary, -⟩ := hs package p hp
        rw [Repository.isLocal_of_summarize hsummary] at hlocal
        cases hlocal
  unfold resolveType at h
  simp only [hnone, hlocal, Bool.false_eq_true, if_false] at h
  split at h
  · rename_i found hfound
    cases h
    exact hfound
  · split at h <;> cases h

/-- A type of a package that is not local is one of the file found under the name of its file. -/
theorem resolveFile_of_resolveType {w : Workspace} (hw : w.NamesFiles)
    (hcatalog : w.catalog.files.Ascending) {s : PackageSet} (hs : Calls (· = w) {} s)
    {package name : String} (hlocal : w.repository.isLocal package = false) {t : TypeRef}
    (ht : w.resolveType s package name = .ok t) (hfree : w.Unrivalled package t) :
    ∃ f s', (w.resolveFile t.file).exec s = (.ok f, s') ∧
      f.summary.exports.get? t.fullName = some t := by
  have hfound := hs.found hw
  have htype := typeIn_of_resolveType hfound.summarized hlocal ht
  have hfull : t.fullName = package ++ "." ++ name := by
    obtain ⟨f, -, hexports⟩ := exists_of_typeIn htype
    exact (FileDescriptor.of_get?_exports hexports).2
  rw [← hfull] at htype
  obtain ⟨f, hforeign, hexports⟩ := foreign_of_typeIn hw hcatalog hfree.before htype
  cases hfile : s.files.get? t.file with
  | some g =>
      -- What was found before is the same file, since no local source makes one of that name.
      obtain ⟨hname, ⟨owner, hmakes⟩ | houtside⟩ := hfound.files t.file g hfile
      · exact absurd hname (hfree.unmade owner g hmakes)
      · rw [(outside?_eq_some.mp houtside).2, Except.ok.injEq, Option.some.injEq] at hforeign
        refine ⟨f, s, ?_, hexports⟩
        rw [resolveFile, exec_bind, exec_get]
        simp only [hfile, exec_pure, hforeign]
  | none =>
      obtain ⟨owner, howner⟩ := hfree.outside
      refine ⟨f, { s with files := s.files.insert t.file f }, ?_, hexports⟩
      rw [resolveFile, exec_bind, exec_get]
      simp only [hfile, howner, BuildM.lift, exec_bind, exec_pure, Bool.false_eq_true, if_false,
        exec_foreignFile, hforeign]

theorem namesFiles_of_ofFiles {w : Workspace} (hcatalog : w.catalog = {})
    (h : ∀ d ∈ w.dependencies, ∃ files, d = .ofFiles files) : w.NamesFiles where
  dependencies d hd file f hf := by
    obtain ⟨files, rfl⟩ := h d hd
    exact DependencySet.nameText_of_ofFiles hf
  catalog file f hf := by
    rw [hcatalog] at hf
    cases hf

/-- A file of a package that is not local, with a type. -/
def thing : FileDescriptor :=
  { name := some "ext/v1/thing.proto", package := some "ext.v1"
    messages := [{ name := some "Thing" }] }

/-- Another file of the package. -/
def gadget : FileDescriptor :=
  { name := some "ext/v1/gadget.proto", package := some "ext.v1"
    messages := [{ name := some "Gadget" }] }

/-- A local package that uses the type. -/
def thingUser : Workspace where
  repository :=
    { packages := .ofList [("foo.v1", .ok { sources := [.ofParsed ⟨
        { name := some "foo/v1/foo.proto", package := some "foo.v1"
          dependencies := ["ext/v1/thing.proto"]
          messages :=
            [{ name := some "Foo"
               fields := [{ name := some "thing", typeName := some ".ext.v1.Thing" }] }] },
        {}⟩ none] })] }
  dependencies := [.ofFiles [gadget], .ofFiles [thing]]
  catalog := {}

theorem namesFiles_thingUser : thingUser.NamesFiles :=
  namesFiles_of_ofFiles rfl (by
    intro d hd
    rcases List.mem_cons.mp hd with rfl | hd
    · exact ⟨_, rfl⟩
    · exact ⟨_, List.mem_singleton.mp hd⟩)

theorem unrivalled_thingUser :
    thingUser.Unrivalled "ext.v1" ⟨"ext.v1", "Thing", "ext/v1/thing.proto", .object none⟩ where
  outside := ⟨"ext.v1", rfl⟩
  unmade name f hf := by
    have hall : ∀ g ∈ thingUser.repository.list.flatMap thingUser.ownFiles,
        g.nameText ≠ "ext/v1/thing.proto" := by decide +kernel
    exact hall f hf.mem_flatMap
  before d hd := by
    have hset : d = .ofFiles [gadget] := List.mem_singleton.mp hd
    rw [hset]
    rfl

theorem resolveFile_of_resolveType_thingUser :
    ∃ s t, Calls (· = thingUser) {} s ∧ thingUser.repository.isLocal "ext.v1" = false ∧
      thingUser.resolveType s "ext.v1" "Thing" = .ok t ∧ thingUser.Unrivalled "ext.v1" t ∧
      ∃ f s', (thingUser.resolveFile t.file).exec s = (.ok f, s') ∧
        f.summary.exports.get? t.fullName = some t := by
  have hs : Calls (· = thingUser) {} (Call.after thingUser {} (.compile "foo.v1")) :=
    .single ⟨thingUser, rfl, _, rfl⟩
  have ht : thingUser.resolveType (Call.after thingUser {} (.compile "foo.v1")) "ext.v1" "Thing" =
      .ok ⟨"ext.v1", "Thing", "ext/v1/thing.proto", .object none⟩ := by
    rw [resolveType_eq (hs.found namesFiles_thingUser).summarized
      (PackageSet.summarized_empty _) (fun hlocal => by cases hlocal)]
    rfl
  exact ⟨_, _, hs, rfl, ht, unrivalled_thingUser, resolveFile_of_resolveType namesFiles_thingUser
    List.Pairwise.nil hs rfl ht unrivalled_thingUser⟩

/-! ## Files in the way -/

/-- A type is found, and the file under the name of its file is not, or does not have the type. -/
def Misses (w : Workspace) (s : PackageSet) (package name : String) : Prop :=
  w.repository.isLocal package = false ∧ ∃ t, w.resolveType s package name = .ok t ∧
    ∀ f s', (w.resolveFile t.file).exec s = (.ok f, s') → f.summary.exports.get? t.fullName ≠ some t

/-- A dependency set that has another file of the name comes first. -/
def rivalSets : Workspace where
  dependencies :=
    [.ofFiles [{ thing with messages := [{ name := some "Other" }] }], .ofFiles [thing]]
  catalog := {}

/-- The path of the file stands for a local package. -/
def rivalPath : Workspace where
  repository := { packages := .ofList [("ext.v1", .ok {})] }
  dependencies := [.ofFiles [{ thing with package := some "ext" }]]
  catalog := {}

/-- A local source is converted to a file of the name. -/
def rivalSource : Workspace where
  repository :=
    { packages := .ofList [("foo.v1", .ok { sources := [.ofParsed ⟨
        { name := some "ext/v1/thing.proto", package := some "foo.v1" }, {}⟩ none] })] }
  dependencies := [.ofFiles [thing]]
  catalog := {}

/-- Each of the three files in the way is enough for the two searches to part. -/
theorem resolveFile_misses_type :
    (rivalSets.NamesFiles ∧ rivalSets.Misses {} "ext.v1" "Thing") ∧
    (rivalPath.NamesFiles ∧ rivalPath.Misses {} "ext" "Thing") ∧
    rivalSource.NamesFiles ∧ ∃ s, Calls (· = rivalSource) {} s ∧
      rivalSource.Misses s "ext.v1" "Thing" := by
  refine ⟨⟨?_, rfl, _, rfl, fun f s' hf => ?_⟩, ⟨?_, rfl, _, rfl, fun f s' hf => ?_⟩, ?_,
    Call.after rivalSource {} (.compile "foo.v1"), .single ⟨_, rfl, _, rfl⟩, rfl, _, rfl,
    fun f s' hf => ?_⟩
  · refine namesFiles_of_ofFiles rfl fun d hd => ?_
    rcases List.mem_cons.mp hd with rfl | hd
    · exact ⟨_, rfl⟩
    · exact ⟨_, List.mem_singleton.mp hd⟩
  · cases hf
    decide +kernel
  · exact namesFiles_of_ofFiles rfl fun d hd => ⟨_, List.mem_singleton.mp hd⟩
  · cases hf
  · exact namesFiles_of_ofFiles rfl fun d hd => ⟨_, List.mem_singleton.mp hd⟩
  · cases hf
    decide +kernel

end Workspace
end Schematic
