import Schematic.FileName
import Schematic.Proofs.Text.Cut
import Schematic.Proofs.Text.Dotted

/-!
# Names of files and where they come from

The name of a file of services or topics tells the path of its document, wherever that stands and whatever
it is called.  The name of a main file tells it too, unless the document itself is named like `bar.p.j5s`.
Then its main file looks like a file of services or topics, and may even be one of another document.
-/

namespace Schematic
namespace FileName

/-! ## The three files of a document -/

/-- How much longer the name of a file of services or topics is than its folder. -/
theorem length_subFile (source : String) :
    ∃ k, source.length + 9 ≤ k ∧ ∀ folder, (subFile source folder).length = folder.length + k := by
  have hlengths : sourceEnding.length = 4 ∧ "/".length = 1 ∧ ".p.j5s.proto".length = 12 := by decide
  obtain ⟨hending, hslash, hproto⟩ := hlengths
  cases hcut : Text.cutLast? '/' source with
  | none =>
      have hstem := Text.length_withoutEnding sourceEnding source
      refine ⟨1 + ((Text.withoutEnding? sourceEnding source).getD source).length + 12, by omega, ?_⟩
      intro folder
      simp only [subFile, hcut, String.length_append, hslash, hproto]
      omega
  | some parts =>
      obtain ⟨dir, base⟩ := parts
      have hstem := Text.length_withoutEnding sourceEnding base
      have hsource := Text.length_of_cutLast? hcut
      refine ⟨dir.length + 2 + ((Text.withoutEnding? sourceEnding base).getD base).length + 12,
        by omega, ?_⟩
      intro folder
      simp only [subFile, hcut, String.length_append, hslash, hproto]
      omega

theorem mainFile_ne_subFile (source folder : String) : mainFile source ≠ subFile source folder := by
  intro heq
  obtain ⟨k, hk, hlength⟩ := length_subFile source
  have hproto : ".proto".length = 6 := by decide
  have hmain : (mainFile source).length = source.length + ".proto".length :=
    String.length_append source ".proto"
  rw [heq, hlength, hproto] at hmain
  omega

theorem subFile_ne (source : String) {a b : String} (h : a.length ≠ b.length) :
    subFile source a ≠ subFile source b := by
  intro heq
  obtain ⟨k, -, hlength⟩ := length_subFile source
  have hboth := congrArg String.length heq
  rw [hlength, hlength] at hboth
  omega

theorem exists_subFile_eq (source folder : String) :
    ∃ stem, subFile source folder = stem ++ ".p.j5s.proto" := by
  unfold subFile
  split <;> exact ⟨_, rfl⟩

/-! ## Paths of documents -/

/-- A path from the top of the repository that ends like a document. -/
structure IsSource (path : String) : Prop where
  ending : Text.endsWith sourceEnding path = true
  inside : Text.startsWith "/" path = false

instance (path : String) : Decidable (IsSource path) :=
  decidable_of_iff (Text.endsWith sourceEnding path = true ∧ Text.startsWith "/" path = false)
    ⟨fun h => ⟨h.1, h.2⟩, fun h => ⟨h.ending, h.inside⟩⟩

/-- The document is named like one with services or topics of another. -/
def isDerived (path : String) : Bool :=
  Text.endsWith ".p.j5s" path

/-- A stem without slashes, in a folder or not. -/
theorem IsSource.exists_stem {path : String} (h : IsSource path) :
    ∃ stem, '/' ∉ stem.toList ∧ (path = stem ++ sourceEnding ∨
      ∃ dir, dir ≠ "" ∧ path = dir ++ "/" ++ (stem ++ sourceEnding)) := by
  obtain ⟨rest, rfl⟩ := Text.endsWith_iff.mp h.ending
  rcases Text.exists_folder rest with hrest | ⟨dir, stem, rfl, hstem⟩
  · exact ⟨rest, hrest, Or.inl rfl⟩
  · refine ⟨stem, hstem, Or.inr ⟨dir, ?_, String.append_assoc⟩⟩
    rintro rfl
    have hstart : Text.startsWith "/" ("" ++ "/" ++ stem ++ sourceEnding) = true :=
      Text.startsWith_iff.mpr ⟨stem ++ sourceEnding, by simp [String.append_assoc]⟩
    rw [h.inside] at hstart
    cases hstart

theorem slash_not_mem_base {stem : String} (h : '/' ∉ stem.toList) :
    '/' ∉ (stem ++ sourceEnding).toList := by
  rw [String.toList_append, List.mem_append, not_or]
  exact ⟨h, by decide⟩

theorem subFile_stem {stem : String} (h : '/' ∉ stem.toList) (folder : String) :
    subFile (stem ++ sourceEnding) folder = folder ++ "/" ++ stem ++ ".p.j5s.proto" := by
  rw [subFile, Text.cutLast?_of_not_mem (slash_not_mem_base h)]
  simp only [Text.withoutEnding?_append, Option.getD_some]

theorem subFile_dir (dir : String) {stem : String} (h : '/' ∉ stem.toList) (folder : String) :
    subFile (dir ++ "/" ++ (stem ++ sourceEnding)) folder =
      dir ++ "/" ++ folder ++ "/" ++ stem ++ ".p.j5s.proto" := by
  rw [subFile, Text.cutLast?_slash dir (slash_not_mem_base h)]
  simp only [Text.withoutEnding?_append, Option.getD_some]

/-! ## Reading names -/

/-- A file in the folder of services or topics comes from a document one folder above. -/
theorem sourceOf?_derived {dir parent folder stem : String} (hstem : '/' ∉ stem.toList)
    (hcut : (Text.cutLast? '/' dir).getD ("", dir) = (parent, folder))
    (hfolder : folder = serviceFolder ∨ folder = topicFolder) :
    sourceOf? (dir ++ "/" ++ stem ++ ".p.j5s.proto") =
      some (if parent = "" then stem ++ sourceEnding else parent ++ "/" ++ stem ++ sourceEnding) := by
  have hknown : (folder = serviceFolder || folder = topicFolder) = true := by simpa using hfolder
  rw [sourceOf?, Text.withoutEnding?_append]
  simp only [Text.cutLast?_slash dir hstem, Option.bind_eq_bind, Option.bind_some, hcut, hknown,
    if_true]
  split <;> rfl

theorem sourceOf?_subFile {path folder : String} (h : IsSource path)
    (hfolder : folder = serviceFolder ∨ folder = topicFolder) :
    sourceOf? (subFile path folder) = some path := by
  have hslash : '/' ∉ folder.toList := by rcases hfolder with rfl | rfl <;> decide
  obtain ⟨stem, hstem, rfl | ⟨dir, hdir, rfl⟩⟩ := h.exists_stem
  · have hcut : (Text.cutLast? '/' folder).getD ("", folder) = ("", folder) := by
      rw [Text.cutLast?_of_not_mem hslash, Option.getD_none]
    rw [subFile_stem hstem, sourceOf?_derived hstem hcut hfolder, if_pos rfl]
  · have hcut : (Text.cutLast? '/' (dir ++ "/" ++ folder)).getD ("", dir ++ "/" ++ folder) =
        (dir, folder) := by
      rw [Text.cutLast?_slash dir hslash, Option.getD_some]
    rw [subFile_dir dir hstem, sourceOf?_derived hstem hcut hfolder, if_neg hdir,
      String.append_assoc]

theorem sourceOf?_mainFile {path : String} (h : IsSource path) (hplain : isDerived path = false) :
    sourceOf? (mainFile path) = some path := by
  have hends : Text.endsWith (".p.j5s" ++ ".proto") (path ++ ".proto") = false := by
    rw [Text.endsWith_append]
    exact hplain
  have hnone : Text.withoutEnding? ".p.j5s.proto" (path ++ ".proto") = none :=
    Text.withoutEnding?_eq_none hends
  rw [mainFile, sourceOf?, hnone]
  simp only [Text.withoutEnding?_append, Option.bind_eq_bind, Option.bind_some, h.ending, if_true]

/-- What is read off a name like that of a file of services or topics is shorter than the name without the
last ending. -/
theorem length_lt_of_sourceOf? {rest path : String}
    (h : sourceOf? (rest ++ ".p.j5s.proto") = some path) : path.length < (rest ++ ".p.j5s").length := by
  have hlengths : sourceEnding.length = 4 ∧ "/".length = 1 ∧ ".p.j5s".length = 6 := by decide
  obtain ⟨hending, hslash, hderived⟩ := hlengths
  rw [sourceOf?, Text.withoutEnding?_append] at h
  simp only [Option.bind_eq_bind, Option.bind_eq_some_iff] at h
  obtain ⟨⟨dir, stem⟩, hcut, h⟩ := h
  have hrest := Text.length_of_cutLast? hcut
  rw [String.length_append, hderived]
  have hparent : ((Text.cutLast? '/' dir).getD ("", dir)).1.length ≤ dir.length := by
    cases hdir : Text.cutLast? '/' dir with
    | none => exact Nat.zero_le _
    | some parts =>
        have hlength := Text.length_of_cutLast? hdir
        rw [Option.getD_some]
        omega
  dsimp only at h
  split at h
  · split at h
    · cases h
      rw [String.length_append, hending]
      omega
    · cases h
      simp only [String.length_append, hending, hslash]
      omega
  · cases h

theorem sourceOf?_mainFile_iff {path : String} (h : IsSource path) :
    sourceOf? (mainFile path) = some path ↔ isDerived path = false := by
  refine ⟨fun hsource => ?_, sourceOf?_mainFile h⟩
  rw [← Bool.not_eq_true]
  intro hderived
  obtain ⟨rest, rfl⟩ := Text.endsWith_iff.mp hderived
  have hmain : mainFile (rest ++ ".p.j5s") = rest ++ ".p.j5s.proto" := String.append_assoc
  rw [hmain] at hsource
  exact absurd (length_lt_of_sourceOf? hsource) (Nat.lt_irrefl _)

/-! ## Names that two documents share -/

/-- The names that the files of a document can have. -/
def files (path : String) : List String :=
  [mainFile path, subFile path serviceFolder, subFile path topicFolder]

/-- A main file that looks like a file of services or topics. -/
def Disguised (path file : String) : Prop :=
  file = mainFile path ∧ isDerived path = true

instance (path file : String) : Decidable (Disguised path file) :=
  inferInstanceAs (Decidable (_ ∧ _))

theorem nodup_files (path : String) : (files path).Nodup := by
  have hfolders : serviceFolder.length ≠ topicFolder.length := by decide
  simp [files, mainFile_ne_subFile, subFile_ne path hfolders]

theorem sourceOf?_of_mem_files {path file : String} (h : IsSource path) (hfile : file ∈ files path)
    (hplain : ¬ Disguised path file) : sourceOf? file = some path := by
  simp only [files, List.mem_cons, List.not_mem_nil, or_false] at hfile
  rcases hfile with rfl | rfl | rfl
  · exact sourceOf?_mainFile h (Bool.eq_false_iff.mpr fun hderived => hplain ⟨rfl, hderived⟩)
  · exact sourceOf?_subFile h (.inl rfl)
  · exact sourceOf?_subFile h (.inr rfl)

theorem eq_of_mem_files {p q file : String} (hp : IsSource p) (hq : IsSource q)
    (hfp : file ∈ files p) (hfq : file ∈ files q) (hplain : ¬ Disguised p file)
    (hplain' : ¬ Disguised q file) : p = q := by
  have hsource := sourceOf?_of_mem_files hp hfp hplain
  rw [sourceOf?_of_mem_files hq hfq hplain', Option.some.injEq] at hsource
  exact hsource.symm

end FileName
end Schematic
