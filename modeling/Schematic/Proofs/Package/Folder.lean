import Schematic.Config
import Schematic.Package.Directory
import Schematic.Proofs.Dict
import Schematic.Proofs.Text.Cut
import Schematic.Proofs.Text.Segments

/-!
# Folders of configured packages

The folder of a package says which package its files belong to: the first beginning of the package name that
ends in a version.  So a configured package is found in its folder if it has no version before the last
segment, and no empty segment.  Then all files below its folder are its own, and no other package takes one
of them.  Otherwise it takes none.
-/

namespace Schematic

/-! ## The first version -/

namespace FileName

variable {l q : List String}

theorem throughVersion?_append (h : throughVersion? l = some q) (rest : List String) :
    throughVersion? (l ++ rest) = some q := by
  induction l generalizing q with
  | nil => cases h
  | cons segment others ih =>
      rw [throughVersion?] at h
      rw [List.cons_append, throughVersion?]
      split at h
      · rename_i hversion
        rw [if_pos hversion]
        exact h
      · rename_i hversion
        obtain ⟨found, hfound, rfl⟩ := Option.map_eq_some_iff.mp h
        rw [if_neg hversion, ih hfound]
        rfl

/-- Up to the first version means a beginning that ends in a version. -/
theorem of_throughVersion? (h : throughVersion? l = some q) :
    q <+: l ∧ q.getLast?.any isVersion = true := by
  induction l generalizing q with
  | nil => cases h
  | cons segment others ih =>
      rw [throughVersion?] at h
      split at h
      · rename_i hversion
        cases h
        exact ⟨⟨others, rfl⟩, hversion⟩
      · obtain ⟨found, hfound, rfl⟩ := Option.map_eq_some_iff.mp h
        obtain ⟨hbegins, hversion⟩ := ih hfound
        refine ⟨List.cons_prefix_cons.mpr ⟨rfl, hbegins⟩, ?_⟩
        cases found with
        | nil => cases hversion
        | cons second rest =>
            rw [List.getLast?_cons_cons]
            exact hversion

theorem exists_throughVersion? (h : ∃ segment ∈ l, isVersion segment = true) :
    ∃ q, throughVersion? l = some q := by
  induction l with
  | nil =>
      obtain ⟨_, hmem, -⟩ := h
      cases hmem
  | cons segment others ih =>
      rw [throughVersion?]
      split
      · exact ⟨_, rfl⟩
      · rename_i hversion
        obtain ⟨found, hmem, hfound⟩ := h
        rcases List.mem_cons.mp hmem with rfl | hmem
        · exact absurd hfound hversion
        · obtain ⟨q, hq⟩ := ih ⟨found, hmem, hfound⟩
          exact ⟨segment :: q, by rw [hq]; rfl⟩

/-- Empty segments are no versions. -/
theorem throughVersion?_filter (l : List String) :
    throughVersion? (l.filter (· ≠ "")) = (throughVersion? l).map (List.filter (· ≠ "")) := by
  induction l with
  | nil => rfl
  | cons segment others ih =>
      by_cases hempty : segment = ""
      · have hversion : isVersion segment = false := by rw [hempty]; rfl
        rw [List.filter_cons_of_neg (by simp [hempty]), ih, throughVersion?, hversion,
          if_neg Bool.false_ne_true, Option.map_map]
        refine congrArg (fun f => (throughVersion? others).map f) (funext fun q => ?_)
        exact (List.filter_cons_of_neg (by simp [hempty])).symm
      · rw [List.filter_cons_of_pos (by simp [hempty]), throughVersion?, throughVersion?, ih]
        split
        · simp [hempty]
        · rw [Option.map_map, Option.map_map]
          refine congrArg (fun f => (throughVersion? others).map f) (funext fun q => ?_)
          exact (List.filter_cons_of_pos (by simp [hempty])).symm

/-- The package of a file, by the segments of its folder. -/
theorem packageOf?_join (hl : l ≠ []) (hslash : ∀ segment ∈ l, '/' ∉ segment.toList) {base : String}
    (hbase : '/' ∉ base.toList) :
    packageOf? (Text.join "/" l ++ "/" ++ base) = (throughVersion? l).map (Text.join ".") := by
  have hpieces : Text.pieces '/' (Text.join "/" l) = l := Text.pieces_join rfl hl hslash
  rw [packageOf?, Text.cutLast?_slash _ hbase]
  simp only [Option.bind_eq_bind, Option.bind_some, hpieces]
  cases throughVersion? l <;> rfl

end FileName

/-! ## Versions of packages -/

namespace Config

theorem isVersioned_of_check {seen names : List String} (h : checkPackages seen names = .ok ())
    {name : String} (hname : name ∈ names) : isVersioned name = true := by
  induction names generalizing seen with
  | nil => cases hname
  | cons first rest ih =>
      rw [checkPackages] at h
      split at h
      · cases h
      · rename_i hversioned
        split at h
        · cases h
        · rcases List.mem_cons.mp hname with rfl | hname
          · simpa using hversioned
          · exact ih h hname

theorem isVersioned_of_validate {c : Config} (h : c.validate = .ok ()) {name : String}
    (hname : name ∈ c.packageNames) : isVersioned name = true := by
  rw [validate] at h
  split at h
  · cases h
  · exact isVersioned_of_check h hname

theorem exists_version {package : String} (h : isVersioned package = true) :
    ∃ segment ∈ Text.pieces '.' package, FileName.isVersion segment = true := by
  rw [isVersioned] at h
  cases hlast : (Text.pieces '.' package).getLast? with
  | none =>
      rw [hlast] at h
      cases h
  | some segment =>
      rw [hlast, Option.any_some] at h
      exact ⟨segment, List.mem_of_getLast? hlast, h⟩

/-- No package is around this one: no shorter beginning of its name ends in a version. -/
def Outermost (package : String) : Prop :=
  ∀ start, Text.Begins start package → isVersioned start = true → start = package

/-- The shortest versioned beginning of a package name is what its segments up to the first version make. -/
theorem exists_shortest {package : String} (h : isVersioned package = true) :
    ∃ start, FileName.throughVersion? (Text.pieces '.' package) = some (Text.pieces '.' start) ∧
      Text.Begins start package ∧ isVersioned start = true ∧
      ∀ other, Text.Begins other package → isVersioned other = true → Text.Begins start other := by
  obtain ⟨q, hq⟩ := FileName.exists_throughVersion? (exists_version h)
  obtain ⟨hbegins, hversion⟩ := FileName.of_throughVersion? hq
  have hne : q ≠ [] := by
    rintro rfl
    cases hversion
  have hpieces : Text.pieces '.' (Text.join "." q) = q :=
    Text.pieces_join rfl hne fun piece hpiece => Text.not_mem_of_mem_pieces (hbegins.subset hpiece)
  refine ⟨Text.join "." q, hpieces.symm ▸ hq, ?_, ?_, fun other hother hversioned => ?_⟩
  · rw [Text.begins_iff_isPrefix, hpieces]
    exact hbegins
  · rw [isVersioned, hpieces]
    exact hversion
  · obtain ⟨rest, hrest⟩ := Text.begins_iff_isPrefix.mp hother
    obtain ⟨q', hq'⟩ := FileName.exists_throughVersion? (exists_version hversioned)
    have hsame := FileName.throughVersion?_append hq' rest
    rw [hrest, hq, Option.some.injEq] at hsame
    rw [Text.begins_iff_isPrefix, hpieces, hsame]
    exact (FileName.of_throughVersion? hq').1

theorem eq_iff_outermost {start package : String} (hbegins : Text.Begins start package)
    (hversioned : isVersioned start = true) (hshortest : ∀ other, Text.Begins other package →
      isVersioned other = true → Text.Begins start other) : start = package ↔ Outermost package := by
  refine ⟨?_, fun h => h start hbegins hversioned⟩
  rintro rfl other hother hother'
  exact Text.begins_antisymm hother (hshortest other hother hother')

/-- The check of `Outermost`. -/
theorem outermost_iff {package : String} (h : isVersioned package = true) :
    Outermost package ↔
      FileName.throughVersion? (Text.pieces '.' package) = some (Text.pieces '.' package) := by
  obtain ⟨start, hstart, hbegins, hversioned, hshortest⟩ := exists_shortest h
  rw [← eq_iff_outermost hbegins hversioned hshortest, hstart, Option.some.injEq]
  refine ⟨fun heq => by rw [heq], fun heq => ?_⟩
  rw [← Text.join_pieces start, heq, Text.join_pieces]

end Config

/-! ## Files below a folder -/

/-- No segment of a path has a slash in it. -/
def FileTree.Segmented (t : FileTree) : Prop :=
  ∀ file ∈ t.files, ∀ segment ∈ file.1, '/' ∉ segment.toList

instance (t : FileTree) : Decidable t.Segmented :=
  inferInstanceAs (Decidable (∀ file ∈ t.files, ∀ segment ∈ file.1, '/' ∉ segment.toList))

/-- Trees that are made of paths are so. -/
theorem FileTree.segmented_ofEntries (entries : List (String × Wire.Bytes)) :
    (FileTree.ofEntries entries).Segmented := by
  intro file hfile segment hsegment
  have hfile := List.mem_mergeSort.mp hfile
  obtain ⟨entry, -, rfl⟩ := List.mem_map.mp hfile
  exact Text.not_mem_of_mem_pieces (List.mem_of_mem_filter hsegment)

namespace Directory

variable {d : Directory} {package : String} {folder : List String}

theorem segments_of_plain {part : String} (hslash : '/' ∉ part.toList) (hdot : '.' ∉ part.toList) :
    FileTree.segments part = [part].filter (· ≠ "") := by
  have hne : part ≠ "." := by
    rintro rfl
    exact hdot (by decide)
  rw [FileTree.segments, Text.pieces_of_not_mem hslash]
  refine List.filter_congr fun segment hsegment => ?_
  rw [List.mem_singleton.mp hsegment]
  simp [hne]

theorem flatMap_segments {parts : List String}
    (h : ∀ part ∈ parts, '/' ∉ part.toList ∧ '.' ∉ part.toList) :
    parts.flatMap FileTree.segments = parts.filter (· ≠ "") := by
  induction parts with
  | nil => rfl
  | cons part rest ih =>
      obtain ⟨hslash, hdot⟩ := h part List.mem_cons_self
      rw [List.flatMap_cons, segments_of_plain hslash hdot,
        ih fun other hother => h other (List.mem_cons_of_mem part hother), ← List.filter_append]
      rfl

theorem folder?_eq (hslash : '/' ∉ package.toList) :
    folder? package = some ((Text.pieces '.' package).filter (· ≠ "")) := by
  have hparts : ∀ part ∈ Text.pieces '.' package, '/' ∉ part.toList ∧ '.' ∉ part.toList :=
    fun part hpart => ⟨fun h => hslash (Text.mem_of_mem_pieces hpart h), Text.not_mem_of_mem_pieces hpart⟩
  have hinside : (Text.pieces '.' package).any (Text.startsWith "/") = false := by
    rw [List.any_eq_false]
    intro part hpart hstarts
    obtain ⟨rest, rfl⟩ := Text.startsWith_iff.mp hstarts
    refine (hparts _ hpart).1 ?_
    rw [String.toList_append]
    exact List.mem_append_left _ List.mem_cons_self
  rw [folder?]
  simp only [hinside, if_neg Bool.false_ne_true, flatMap_segments hparts]

theorem folder_of_folderIn? (hslash : '/' ∉ package.toList) (h : d.folderIn? package = some folder) :
    folder = (Text.pieces '.' package).filter (· ≠ "") := by
  rw [folderIn?, folder?_eq hslash, Option.filter_eq_some_iff, Option.some.injEq] at h
  exact h.1.symm

theorem packageOf?_of_mem_filesIn (ht : d.tree.Segmented) {q : List String}
    (hq : FileName.throughVersion? folder = some q) {entry : String × Wire.Bytes}
    (h : entry ∈ d.tree.filesIn folder) : FileName.packageOf? entry.1 = some (Text.join "." q) := by
  obtain ⟨⟨file, bytes⟩, hfile, rfl⟩ := List.mem_map.mp h
  obtain ⟨hmem, hbelow⟩ := List.mem_filter.mp hfile
  simp only [Bool.and_eq_true, List.isPrefixOf_iff_prefix, decide_eq_true_eq] at hbelow
  obtain ⟨⟨rest, rfl⟩, hlength⟩ := hbelow
  have hslash := ht _ hmem
  have hfolder : folder ≠ [] := by
    rintro rfl
    cases hq
  -- What is below the folder is the folder of the file and the file itself.
  rcases List.eq_nil_or_concat' rest with rfl | ⟨below, base, rfl⟩
  · rw [List.append_nil] at hlength
    exact absurd hlength (Nat.lt_irrefl _)
  · have hne : folder ++ below ≠ [] := by simp [hfolder]
    dsimp only at hslash ⊢
    rw [← List.append_assoc] at hslash ⊢
    rw [Text.join_append hne (List.cons_ne_nil _ _)]
    refine (FileName.packageOf?_join hne
      (fun segment hsegment => hslash segment (List.mem_append_left _ hsegment))
      (hslash base (List.mem_append_right _ List.mem_cons_self))).trans ?_
    rw [FileName.throughVersion?_append hq]
    rfl

theorem filter_segments {l : List String} (h : "" ∉ l) : l.filter (· ≠ "") = l := by
  refine List.filter_eq_self.mpr fun segment hsegment => decide_eq_true ?_
  rintro rfl
  exact h hsegment

/-- The package that the files below the folder of a package belong to is this package itself only if
nothing in its name hides it. -/
theorem join_filter_eq_iff {start : String}
    (hstart : FileName.throughVersion? (Text.pieces '.' package) = some (Text.pieces '.' start)) :
    Text.join "." ((Text.pieces '.' start).filter (· ≠ "")) = package ↔
      start = package ∧ "" ∉ Text.pieces '.' package := by
  obtain ⟨hbegins, -⟩ := FileName.of_throughVersion? hstart
  constructor
  · intro heq
    have hne : (Text.pieces '.' start).filter (· ≠ "") ≠ [] := by
      have hfiltered := FileName.throughVersion?_filter (Text.pieces '.' package)
      rw [hstart, Option.map_some] at hfiltered
      intro hnil
      rw [hnil] at hfiltered
      cases (FileName.of_throughVersion? hfiltered).2
    have hpieces : Text.pieces '.' (Text.join "." ((Text.pieces '.' start).filter (· ≠ ""))) =
        (Text.pieces '.' start).filter (· ≠ "") :=
      Text.pieces_join rfl hne fun piece hpiece =>
        Text.not_mem_of_mem_pieces (List.mem_of_mem_filter hpiece)
    rw [heq] at hpieces
    have hempty : "" ∉ Text.pieces '.' package := by
      rw [hpieces]
      intro hmem
      simpa using (List.mem_filter.mp hmem).2
    refine ⟨?_, hempty⟩
    rw [filter_segments fun hmem => hempty (hbegins.subset hmem), Text.join_pieces] at heq
    exact heq
  · rintro ⟨rfl, hempty⟩
    rw [filter_segments hempty, Text.join_pieces]

/-! ## Reading a package -/

/-- What is read of a file, whatever package it belongs to. -/
def readEntry (d : Directory) (package : String) (entry : String × Wire.Bytes) :
    Except BuildError (Option SourceFile) :=
  if Text.endsWith FileName.sourceEnding entry.1 then do
    let text ← d.readText entry.1 entry.2
    return some (← readDocument package entry.1 text)
  else if Text.endsWith ".proto" entry.1 then
    match d.reader with
    | none => .ok none
    | some reader => do
      let text ← d.readText entry.1 entry.2
      return some (← readParsed reader entry.1 text)
  else .ok none

theorem readSource_own {file : String} (h : FileName.packageOf? file = some package)
    (bytes : Wire.Bytes) : d.readSource package file bytes = d.readEntry package (file, bytes) := by
  rw [readSource, if_neg (not_not.mpr h)]
  rfl

theorem readSource_other {file : String} (h : FileName.packageOf? file ≠ some package)
    (bytes : Wire.Bytes) : d.readSource package file bytes = .ok none := by
  rw [readSource, if_pos h]

theorem mapM_congr {α β ε : Type} {l : List α} {f g : α → Except ε β} (h : ∀ a ∈ l, f a = g a) :
    l.mapM f = l.mapM g := by
  induction l with
  | nil => rfl
  | cons a rest ih =>
      rw [List.mapM_cons, List.mapM_cons, h a List.mem_cons_self,
        ih fun b hb => h b (List.mem_cons_of_mem a hb)]

theorem sources_own (hfolder : d.folderIn? package = some folder)
    (h : ∀ entry ∈ d.tree.filesIn folder, FileName.packageOf? entry.1 = some package) :
    d.sources package = (do
      let found ← (d.tree.filesIn folder).mapM (d.readEntry package)
      return found.filterMap id) := by
  have hread : (d.tree.filesIn folder).mapM (fun entry => d.readSource package entry.1 entry.2) =
      (d.tree.filesIn folder).mapM (d.readEntry package) :=
    mapM_congr fun entry hentry => readSource_own (h entry hentry) entry.2
  rw [sources, hfolder]
  dsimp only
  rw [hread]

theorem sources_other (hfolder : d.folderIn? package = some folder)
    (h : ∀ entry ∈ d.tree.filesIn folder, FileName.packageOf? entry.1 ≠ some package) :
    d.sources package = .ok [] := by
  have hread : (d.tree.filesIn folder).mapM (fun entry => d.readSource package entry.1 entry.2) =
      (d.tree.filesIn folder).mapM fun _ => pure none :=
    mapM_congr fun entry hentry => readSource_other (h entry hentry) entry.2
  rw [sources, hfolder]
  dsimp only
  rw [hread, List.mapM_pure, pure_bind]
  simp only [List.filterMap_map, Function.id_comp, List.filterMap_none]
  rfl

theorem packageOf_repository {file : String} (h : FileName.packageOf? file = some package)
    (hpackage : package ∈ d.packages) : d.repository.packageOf file = .ok (package, true) := by
  have hfor : FileName.packageFor file = package := by rw [FileName.packageFor, h, Option.getD_some]
  have hlocal : d.repository.packages.contains package = true := by
    refine Dict.contains_iff.mpr (Dict.exists_get?_ofList ?_)
    rw [List.map_map]
    exact List.mem_map.mpr ⟨package, hpackage, rfl⟩
  show Except.ok (FileName.packageFor file, d.repository.packages.contains (FileName.packageFor file)) = _
  rw [hfor, hlocal]

/-- A configured package is found in its folder, with all that is below it and by no other package, if no
shorter beginning of its name ends in a version and no segment is empty.  Otherwise none of its files is
read. -/
theorem finds_configured {c : Config} (hc : c.validate = .ok ()) {package : String}
    (hpackage : package ∈ c.packageNames) (hslash : '/' ∉ package.toList) :
    (∃ start, Text.Begins start package ∧ Config.isVersioned start = true ∧
      (∀ other, Text.Begins other package → Config.isVersioned other = true →
        Text.Begins start other) ∧
      ∀ file : String, '/' ∉ file.toList →
        FileName.packageOf? (Text.replace '.' "/" package ++ "/" ++ file) = some start ∧
        (FileName.packageOf? (Text.replace '.' "/" package ++ "/" ++ file) = some package ↔
          Config.Outermost package)) ∧
    ∀ (d : Directory) (folder : List String), d.packages = c.packageNames → d.tree.Segmented →
      d.folderIn? package = some folder →
      (Config.Outermost package ∧ "" ∉ Text.pieces '.' package →
        (∀ entry ∈ d.tree.filesIn folder, d.repository.packageOf entry.1 = .ok (package, true) ∧
          ∀ other, other ≠ package → d.readSource other entry.1 entry.2 = .ok none) ∧
        d.sources package = (do
          let found ← (d.tree.filesIn folder).mapM (d.readEntry package)
          return found.filterMap id)) ∧
      (¬ (Config.Outermost package ∧ "" ∉ Text.pieces '.' package) → d.sources package = .ok []) := by
  obtain ⟨start, hstart, hbegins, hversioned, hshortest⟩ :=
    Config.exists_shortest (Config.isVersioned_of_validate hc hpackage)
  have houtermost := Config.eq_iff_outermost hbegins hversioned hshortest
  refine ⟨⟨start, hbegins, hversioned, hshortest, fun file hfile => ?_⟩, ?_⟩
  · have hfound : FileName.packageOf? (Text.replace '.' "/" package ++ "/" ++ file) = some start := by
      rw [← Text.join_pieces_mark, FileName.packageOf?_join (Text.pieces_ne_nil '.' package)
        (fun segment hsegment h => hslash (Text.mem_of_mem_pieces hsegment h)) hfile, hstart,
        Option.map_some, Text.join_pieces]
    refine ⟨hfound, ?_⟩
    rw [hfound, Option.some.injEq]
    exact houtermost
  · intro d folder hpackages htree hfolder
    have hfiltered := FileName.throughVersion?_filter (Text.pieces '.' package)
    rw [hstart, Option.map_some, ← folder_of_folderIn? hslash hfolder] at hfiltered
    have hown := join_filter_eq_iff hstart
    rw [houtermost] at hown
    refine ⟨fun hplain => ?_, fun hplain => ?_⟩
    · have hall : ∀ entry ∈ d.tree.filesIn folder, FileName.packageOf? entry.1 = some package := by
        intro entry hentry
        rw [packageOf?_of_mem_filesIn htree hfiltered hentry, hown.mpr hplain]
      refine ⟨fun entry hentry => ⟨packageOf_repository (hall entry hentry) (hpackages ▸ hpackage),
        fun other hother => ?_⟩, sources_own hfolder hall⟩
      refine readSource_other (fun h => hother ?_) entry.2
      rw [hall entry hentry, Option.some.injEq] at h
      exact h.symm
    · refine sources_other hfolder fun entry hentry h => hplain (hown.mp ?_)
      rw [packageOf?_of_mem_filesIn htree hfiltered hentry, Option.some.injEq] at h
      exact h

def twoVersions : Config where
  packages := [{ name := "foo.v1" }, { name := "foo.v1.bar.v2" }]

/-- A file in the folder of each package. -/
def twoFolders : Directory where
  tree := { files := [(["foo", "v1", "bar", "v2", "y.j5s"], []), (["foo", "v1", "x.j5s"], [])] }
  packages := twoVersions.packageNames

theorem finds_configured_twoFolders :
    twoVersions.validate = .ok () ∧ "foo.v1" ∈ twoVersions.packageNames ∧
      Config.Outermost "foo.v1" ∧ twoFolders.folderIn? "foo.v1" = some ["foo", "v1"] ∧
      (∀ file : String, '/' ∉ file.toList →
        (FileName.packageOf? (Text.replace '.' "/" "foo.v1" ++ "/" ++ file) = some "foo.v1" ↔
          Config.Outermost "foo.v1")) ∧
      (twoFolders.tree.filesIn ["foo", "v1"]).length = 2 ∧
      twoFolders.sources "foo.v1" = (do
        let found ← (twoFolders.tree.filesIn ["foo", "v1"]).mapM (twoFolders.readEntry "foo.v1")
        return found.filterMap id) := by
  have hvalid : twoVersions.validate = .ok () := by decide +kernel
  have hmem : "foo.v1" ∈ twoVersions.packageNames := by decide +kernel
  have houtermost : Config.Outermost "foo.v1" :=
    (Config.outermost_iff (by decide +kernel)).mpr (by decide +kernel)
  have hfolder : twoFolders.folderIn? "foo.v1" = some ["foo", "v1"] := by decide +kernel
  obtain ⟨⟨start, -, -, -, hfiles⟩, hread⟩ := finds_configured hvalid hmem (by decide +kernel)
  obtain ⟨hown, -⟩ := hread twoFolders ["foo", "v1"] rfl (by decide +kernel) hfolder
  exact ⟨hvalid, hmem, houtermost, hfolder, fun file hfile => (hfiles file hfile).2, by decide +kernel,
    (hown ⟨houtermost, by decide +kernel⟩).2⟩

/-- A package with a version before its last segment is not found, and its file is taken by another. -/
theorem misses_configured_twoFolders :
    twoVersions.validate = .ok () ∧ "foo.v1.bar.v2" ∈ twoVersions.packageNames ∧
      FileName.packageOf? (Text.replace '.' "/" "foo.v1.bar.v2" ++ "/" ++ "y.j5s") = some "foo.v1" ∧
      (twoFolders.folderIn? "foo.v1.bar.v2").map (fun folder => (twoFolders.tree.filesIn folder).length) =
        some 1 ∧
      (twoFolders.sources "foo.v1.bar.v2").toOption.map List.length = some 0 := by
  decide +kernel

end Directory
end Schematic
