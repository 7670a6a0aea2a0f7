import Schematic.Proofs.Package.Linked

/-!
# Files with all that they import

The files of packages are put out together with all that they import, each once and behind its
own imports.  A file counts as taken as soon as its imports are looked at, before it is put out
itself.  That does no harm, since a file never leads to one whose imports are being looked
at: that would be a circle.
-/

namespace Schematic

open Relation BuildM

/-! ## Files behind their imports -/

/-- Every file comes behind the files it imports. -/
def ImportsFirst (files : List FileDescriptor) : Prop :=
  ∀ before f after, files = before ++ f :: after →
    ∀ d ∈ f.dependencies, d ∈ before.map FileDescriptor.nameText

theorem importsFirst_nil : ImportsFirst [] := by
  intro before f after h
  simp at h

theorem ImportsFirst.concat {files : List FileDescriptor} {f : FileDescriptor}
    (h : ImportsFirst files)
    (hf : ∀ d ∈ f.dependencies, d ∈ files.map FileDescriptor.nameText) :
    ImportsFirst (files ++ [f]) := by
  intro before g after heq
  rcases List.eq_nil_or_concat after with rfl | ⟨rest, last, rfl⟩
  · obtain ⟨rfl, hfg⟩ := List.append_inj' heq rfl
    cases hfg
    exact hf
  · rw [List.concat_eq_append, ← List.cons_append, ← List.append_assoc] at heq
    exact h before g rest (List.append_inj' heq rfl).1

namespace PackageSet

/-! ## Visiting -/

/-- How many linked files are not taken yet. -/
def unseen (s : PackageSet) (seen : List String) : Nat :=
  s.linked.keys.countP fun name => !seen.contains name

theorem unseen_anti (s : PackageSet) {seen seen' : List String} (h : seen ⊆ seen') :
    s.unseen seen' ≤ s.unseen seen := by
  refine List.countP_mono_left fun name _ hname => ?_
  simp only [Bool.not_eq_true', List.contains_eq_mem, decide_eq_false_iff_not] at hname ⊢
  exact fun hin => hname (h hin)

/-- A file that is taken for the first time. -/
theorem unseen_cons_lt (s : PackageSet) {seen : List String} {name : String}
    (hname : s.linked.contains name = true) (hnew : name ∉ seen) :
    s.unseen (name :: seen) < s.unseen seen := by
  obtain ⟨before, after, hkeys⟩ := List.append_of_mem (Dict.mem_keys hname)
  have hrest : ∀ keys : List String, keys.countP (fun k => !(name :: seen).contains k) ≤
      keys.countP fun k => !seen.contains k := by
    intro keys
    refine List.countP_mono_left fun k _ hk => ?_
    simp only [Bool.not_eq_true', List.contains_eq_mem, decide_eq_false_iff_not] at hk ⊢
    exact fun hin => hk (List.mem_cons_of_mem name hin)
  have hb := hrest before
  have ha := hrest after
  simp only [unseen, hkeys, List.countP_append, List.countP_cons]
  simp only [List.contains_eq_mem, List.mem_cons_self, hnew, decide_true, decide_false,
    Bool.not_true, Bool.not_false, if_true, Bool.false_eq_true, if_false] at ha hb ⊢
  omega

/-- What holds while files are visited and the imports of the files in `path` are looked at. -/
structure Visited (s : PackageSet) (path : List String) (v : Visit) : Prop where
  seen : ∀ name, name ∈ v.seen ↔ name ∈ v.files.map FileDescriptor.nameText ∨ name ∈ path
  apart : ∀ name ∈ path, name ∉ v.files.map FileDescriptor.nameText
  nodup : (v.files.map FileDescriptor.nameText).Nodup
  linked : ∀ f ∈ v.files, s.HasFile f
  first : ImportsFirst v.files

theorem visited_start (s : PackageSet) : s.Visited [] {} where
  seen name := by simp
  apart _ h := by cases h
  nodup := List.nodup_nil
  linked _ h := by cases h
  first := importsFirst_nil

/-- Looking at the imports of one more file. -/
theorem Visited.enter {s : PackageSet} {path : List String} {v : Visit} (h : s.Visited path v)
    {name : String} (hnew : name ∉ v.seen) :
    s.Visited (name :: path) { v with seen := name :: v.seen } where
  seen k := by
    rw [List.mem_cons, List.mem_cons, h.seen k]
    tauto
  apart k hk := by
    rcases List.mem_cons.mp hk with rfl | hk
    · exact fun hin => hnew ((h.seen k).mpr (Or.inl hin))
    · exact h.apart k hk
  nodup := h.nodup
  linked := h.linked
  first := h.first

/-- Putting out a file when its imports are there. -/
theorem Visited.leave {s : PackageSet} {path : List String} {v : Visit} {f : FileDescriptor}
    (h : s.Visited (f.nameText :: path) v) (hpath : f.nameText ∉ path) (hf : s.HasFile f)
    (himports : ∀ d ∈ f.dependencies, d ∈ v.files.map FileDescriptor.nameText) :
    s.Visited path { v with files := v.files ++ [f] } where
  seen k := by
    rw [h.seen k, List.map_append, List.mem_append, List.map_singleton, List.mem_singleton,
      List.mem_cons]
    tauto
  apart k hk := by
    rw [List.map_append, List.mem_append, List.map_singleton, List.mem_singleton]
    rintro (hin | rfl)
    · exact h.apart k (List.mem_cons_of_mem _ hk) hin
    · exact hpath hk
  nodup := by
    rw [List.map_append, List.map_singleton]
    refine h.nodup.append (List.nodup_singleton _) ?_
    rw [List.disjoint_singleton]
    exact h.apart _ List.mem_cons_self
  linked g hg := by
    rcases List.mem_append.mp hg with hg | hg
    · exact h.linked g hg
    · rw [List.mem_singleton.mp hg]
      exact hf
  first := h.first.concat himports

/-- `v'` has all that `v` has, and puts out `names` besides. -/
structure Reaches (v v' : Visit) (names : List String) : Prop where
  seen : v.seen ⊆ v'.seen
  files : v.files ⊆ v'.files
  names : ∀ name ∈ names, name ∈ v'.files.map FileDescriptor.nameText

/-- Visiting several files one after the other, when `step` visits one. -/
theorem visited_foldl {s : PackageSet} {path : List String} {step : Visit → String → Visit}
    {names : List String} {v : Visit} (hv : s.Visited path v)
    (hstep : ∀ name ∈ names, ∀ v', s.Visited path v' → v.seen ⊆ v'.seen →
      s.Visited path (step v' name) ∧ Reaches v' (step v' name) [name]) :
    s.Visited path (names.foldl step v) ∧ Reaches v (names.foldl step v) names := by
  induction names generalizing v with
  | nil => exact ⟨hv, List.Subset.refl _, List.Subset.refl _, fun _ h => by cases h⟩
  | cons name rest ih =>
      obtain ⟨hv₁, h₁⟩ := hstep name List.mem_cons_self v hv (List.Subset.refl _)
      obtain ⟨hv₂, h₂⟩ := ih hv₁ fun k hk v' hv' hseen =>
        hstep k (List.mem_cons_of_mem name hk) v' hv' (List.Subset.trans h₁.seen hseen)
      refine ⟨hv₂, List.Subset.trans h₁.seen h₂.seen, List.Subset.trans h₁.files h₂.files,
        fun k hk => ?_⟩
      rcases List.mem_cons.mp hk with rfl | hk
      · exact List.map_subset _ h₂.files (h₁.names k List.mem_cons_self)
      · exact h₂.names k hk

/-- Visiting a linked file puts it out, behind all that it imports. -/
theorem visited_visit {s : PackageSet} (hs : s.ImportsLinked) {depth : Nat} {path : List String}
    {v : Visit} {name : String} (hv : s.Visited path v) (hname : s.linked.contains name = true)
    (hpath : ∀ a ∈ path, TransGen s.Imports a name) (hdepth : s.unseen v.seen < depth) :
    s.Visited path (s.visit depth v name) ∧ Reaches v (s.visit depth v name) [name] := by
  -- The depth bounds how many files are still to be taken, and a circle is what it would
  -- take to meet a file of the path again.
  induction depth generalizing path v name with
  | zero => exact absurd hdepth (Nat.not_lt_zero _)
  | succ depth ih =>
      have hoff : name ∉ path := fun hin => hs.acyclic name (hpath name hin)
      rw [visit]
      by_cases hseen : name ∈ v.seen
      · rw [if_pos (by simpa using hseen)]
        refine ⟨hv, List.Subset.refl _, List.Subset.refl _, fun k hk => ?_⟩
        rw [List.mem_singleton.mp hk]
        exact ((hv.seen name).mp hseen).resolve_right hoff
      · rw [if_neg (by simpa using hseen)]
        obtain ⟨l, hl⟩ := Dict.contains_iff.mp hname
        obtain rfl := hs.named name l hl
        simp only [hl]
        have himport : ∀ d ∈ l.descriptor.dependencies, ∀ v',
            s.Visited (l.descriptor.nameText :: path) v' →
            l.descriptor.nameText :: v.seen ⊆ v'.seen →
            s.Visited (l.descriptor.nameText :: path) (s.visit depth v' d) ∧
              Reaches v' (s.visit depth v' d) [d] := by
          intro d hd v' hv' hsub
          have hd' : s.Imports l.descriptor.nameText d := ⟨l, hl, hd⟩
          refine ih hv' (hs.closed _ d hd') (fun a ha => ?_) ?_
          · rcases List.mem_cons.mp ha with rfl | ha
            · exact .single hd'
            · exact (hpath a ha).tail hd'
          · have hless := s.unseen_anti hsub
            have hfirst := s.unseen_cons_lt hname hseen
            omega
        obtain ⟨hv₂, h₂⟩ := visited_foldl (hv.enter hseen) himport
        refine ⟨hv₂.leave hoff ⟨l, hl, rfl⟩ h₂.names, ?_, ?_, fun k hk => ?_⟩
        · exact fun k hk => h₂.seen (List.mem_cons_of_mem _ hk)
        · exact fun f hf => List.mem_append_left _ (h₂.files hf)
        · rw [List.mem_singleton.mp hk, List.map_append, List.map_singleton]
          exact List.mem_append_right _ List.mem_cons_self

/-! ## The files of packages -/

theorem mem_distinct {files : List FileDescriptor} {seen : List String} {f : FileDescriptor}
    (hf : f ∈ files) : f.nameText ∈ (FileDescriptor.distinct seen files).map FileDescriptor.nameText ∨
      f.nameText ∈ seen := by
  induction files generalizing seen with
  | nil => cases hf
  | cons g rest ih =>
      rw [FileDescriptor.distinct]
      by_cases hg : g.nameText ∈ seen
      · rw [if_pos (by simpa using hg)]
        rcases List.mem_cons.mp hf with rfl | hf
        · exact Or.inr hg
        · exact ih hf
      · rw [if_neg (by simpa using hg), List.map_cons, List.mem_cons]
        rcases List.mem_cons.mp hf with rfl | hf
        · exact Or.inl (Or.inl rfl)
        · rcases ih hf with h | h
          · exact Or.inl (Or.inr h)
          · rcases List.mem_cons.mp h with h | h
            · exact Or.inl (Or.inl h)
            · exact Or.inr h

theorem mem_of_mem_distinct {files : List FileDescriptor} {seen : List String} {f : FileDescriptor}
    (hf : f ∈ FileDescriptor.distinct seen files) : f ∈ files := by
  induction files generalizing seen with
  | nil => cases hf
  | cons g rest ih =>
      rw [FileDescriptor.distinct] at hf
      split at hf
      · exact List.mem_cons_of_mem g (ih hf)
      · rcases List.mem_cons.mp hf with rfl | hf
        · exact List.mem_cons_self
        · exact List.mem_cons_of_mem g (ih hf)

theorem mem_allFilesList {packages : List BuiltPackage} {f : FileDescriptor} :
    f ∈ BuiltPackage.allFilesList packages ↔ ∃ b ∈ packages, f ∈ b.allFiles := by
  induction packages with
  | nil => simp [BuiltPackage.allFilesList]
  | cons b rest ih => simp [BuiltPackage.allFilesList, ih]

theorem mem_allFiles {b : BuiltPackage} {f : FileDescriptor} :
    f ∈ b.allFiles ↔ (∃ c ∈ b.dependencies, f ∈ c.allFiles) ∨ f ∈ b.files.map LinkedFile.descriptor := by
  obtain ⟨name, files, prose, dependencies⟩ := b
  rw [BuiltPackage.allFiles, List.mem_append, mem_allFilesList]

/-- The files of a package that was given out are linked. -/
theorem Delivers.hasFile {s : PackageSet} (hs : s.ImportsLinked) {b : BuiltPackage}
    (hb : s.Delivers b) {f : FileDescriptor} (hf : f ∈ b.allFiles) : s.HasFile f := by
  induction hb with
  | mk hp hfiles hnames hdeps ih =>
      rcases mem_allFiles.mp hf with ⟨c, hc, hfc⟩ | hf
      · exact ih c hc hfc
      · obtain ⟨l, hl, rfl⟩ := List.mem_map.mp hf
        obtain ⟨file, -, hfile⟩ := exists_of_forall₂ hfiles.flip hl
        exact ⟨l, by rw [hs.named file l hfile]; exact hfile, rfl⟩

/-- The packages that a package leads to were built with it. -/
theorem Delivers.reaches {s : PackageSet} {b : BuiltPackage} (hb : s.Delivers b) {name : String}
    (h : ReflTransGen s.DependsOn b.name name) :
    ∃ c, s.Delivers c ∧ c.name = name ∧ ∀ f ∈ c.allFiles, f ∈ b.allFiles := by
  induction h with
  | refl => exact ⟨b, hb, rfl, fun _ h => h⟩
  | @tail middle name _ hdep ih =>
      obtain ⟨c, hc, rfl, hsub⟩ := ih
      obtain ⟨p, hp, hname⟩ := hdep
      cases hc with
      | @mk _ q files prose dependencies hq hfiles hnames hdeps =>
          rw [hq, Option.some.injEq] at hp
          rw [← hp, hnames] at hname
          obtain ⟨d, hd, rfl⟩ := List.mem_map.mp hname
          exact ⟨d, hdeps d hd, rfl, fun f hf => hsub f (mem_allFiles.mpr (Or.inl ⟨d, hd, hf⟩))⟩

/-- A package that was given out has all files that its sources produce. -/
theorem Delivers.produced {s : PackageSet} (hs : s.ImportsLinked) {b : BuiltPackage}
    (hb : s.Delivers b) {p : Package} (hp : s.packages.get? b.name = some p) {source : SourceFile}
    (hsource : source ∈ p.sources) {file : String} (hfile : file ∈ source.summary.produces) :
    ∃ f ∈ b.allFiles, f.nameText = file := by
  cases hb with
  | mk hq hfiles hnames hdeps =>
      rw [hq, Option.some.injEq] at hp
      have hmem : file ∈ p.sources.flatMap fun source => source.summary.produces :=
        List.mem_flatMap_of_mem hsource hfile
      rw [← hp] at hmem
      obtain ⟨l, hl, hlinked⟩ := exists_of_forall₂ hfiles hmem
      exact ⟨l.descriptor, mem_allFiles.mpr (Or.inr (List.mem_map.mpr ⟨l, hl, rfl⟩)),
        hs.named file l hlinked⟩

/-- All files of the packages are visited. -/
theorem visited_withImports {s : PackageSet} (hs : s.ImportsLinked) {packages : List BuiltPackage}
    (hpackages : ∀ b ∈ packages, s.Delivers b) :
    ∃ v, s.withImports packages = v.files ∧ s.Visited [] v ∧
      Reaches {} v ((BuiltPackage.flatten packages).map FileDescriptor.nameText) := by
  refine ⟨((BuiltPackage.flatten packages).map FileDescriptor.nameText).foldl
    (s.visit (s.linked.size + 2)) {}, by rw [withImports, List.foldl_map], ?_⟩
  refine visited_foldl s.visited_start fun name hname v hv _ => ?_
  obtain ⟨f, hf, rfl⟩ := List.mem_map.mp hname
  obtain ⟨b, hb, hfb⟩ := mem_allFilesList.mp (mem_of_mem_distinct hf)
  obtain ⟨l, hl, -⟩ := (hpackages b hb).hasFile hs hfb
  refine visited_visit hs hv (Dict.contains_iff.mpr ⟨l, hl⟩) (fun _ h => by cases h) ?_
  have hsize : s.unseen v.seen ≤ s.linked.keys.length := List.countP_le_length
  rw [Dict.keys, List.length_map] at hsize
  rw [Dict.size]
  omega

theorem mem_withImports {s : PackageSet} (hs : s.ImportsLinked) {packages : List BuiltPackage}
    (hpackages : ∀ b ∈ packages, s.Delivers b) {f : FileDescriptor}
    (hf : f ∈ BuiltPackage.allFilesList packages) : f ∈ s.withImports packages := by
  obtain ⟨v, heq, hv, hreach⟩ := visited_withImports hs hpackages
  have hname : f.nameText ∈ (BuiltPackage.flatten packages).map FileDescriptor.nameText :=
    (mem_distinct hf).resolve_right List.not_mem_nil
  obtain ⟨g, hg, hgf⟩ := List.mem_map.mp (hreach.names _ hname)
  obtain ⟨b, hb, hfb⟩ := mem_allFilesList.mp hf
  obtain ⟨l, hl, hlf⟩ := (hpackages b hb).hasFile hs hfb
  obtain ⟨l', hl', hlg⟩ := hv.linked g hg
  rw [hgf, hl, Option.some.injEq] at hl'
  rw [heq, ← hlf, hl', hlg]
  exact hg

end PackageSet

/-! ## Packages given out -/

/-- A package that a call gave out at some time before `s`, or one that such a package
needs. -/
inductive GivenOut (W : Workspace → Prop) : PackageSet → BuiltPackage → Prop where
  | compile {w : Workspace} {s s' : PackageSet} {name : String} {b : BuiltPackage} (hw : W w)
      (hs : Calls W {} s) (h : (w.compile name).exec s = (.ok b, s')) : GivenOut W s' b
  | buildAll {w : Workspace} {s s' : PackageSet} {names : List String} {bs : List BuiltPackage}
      {b : BuiltPackage} (hw : W w) (hs : Calls W {} s)
      (h : (w.buildAll names).exec s = (.ok bs, s')) (hb : b ∈ bs) : GivenOut W s' b
  | dependency {s : PackageSet} {b c : BuiltPackage} (hb : GivenOut W s b)
      (hc : c ∈ b.dependencies) : GivenOut W s c
  | later {s s' : PackageSet} {b : BuiltPackage} (hb : GivenOut W s b) (h : Calls W s s') :
      GivenOut W s' b

theorem GivenOut.delivers {W : Workspace → Prop} (hW : ∀ w, W w → w.NamesFiles) {s : PackageSet}
    {b : BuiltPackage} (h : GivenOut W s b) : s.Delivers b := by
  induction h with
  | @compile w s s' name b hw hs hexec =>
      have hset := hs.linkedFiles hW
      have hkeeps := (hW w hw).keeps
      have hcompile := hkeeps.ensures_compile name hset
      have hset' : linkedFiles.set s' := by
        have := hcompile.moves.keeps hset
        rwa [hexec] at this
      have hb : s'.built.get? name = some b := by
        have := hcompile.ok b (by rw [hexec])
        rwa [hexec] at this
      exact (hset'.2.2 name b hb).2
  | @buildAll w s s' names bs b hw hs hexec hb =>
      have hbs := ((hW w hw).keeps.ensures_buildAll names (hs.linkedFiles hW)).ok bs (by rw [hexec])
      rw [hexec] at hbs
      obtain ⟨name, -, hdelivers⟩ := hbs b hb
      exact hdelivers
  | dependency _ hc ih =>
      cases ih with
      | mk hp hfiles hnames hdeps => exact hdeps _ hc
  | later _ hcalls ih => exact ih.later hcalls.extends

/-- The files of packages that were given out, put out with all that they import: no name occurs
twice, every import of a file is the name of one before it, and all files of the packages
and of the packages they lead to are there. -/
theorem withImports_selfContained {W : Workspace → Prop} (hW : ∀ w, W w → w.NamesFiles)
    {s : PackageSet} (hs : Calls W {} s) {packages : List BuiltPackage}
    (hpackages : ∀ b ∈ packages, GivenOut W s b) :
    ((s.withImports packages).map FileDescriptor.nameText).Nodup ∧
    ImportsFirst (s.withImports packages) ∧
    (∀ f ∈ BuiltPackage.allFilesList packages, f ∈ s.withImports packages) ∧
    ∀ b ∈ packages, ∀ name, ReflTransGen s.DependsOn b.name name →
      ∀ p, s.packages.get? name = some p → ∀ source ∈ p.sources,
        ∀ file ∈ source.summary.produces,
          file ∈ (s.withImports packages).map FileDescriptor.nameText := by
  have himports := (hs.linkedFiles hW).2.1
  have hdelivers : ∀ b ∈ packages, s.Delivers b := fun b hb => (hpackages b hb).delivers hW
  obtain ⟨v, heq, hv, -⟩ := PackageSet.visited_withImports himports hdelivers
  refine ⟨by rw [heq]; exact hv.nodup, by rw [heq]; exact hv.first,
    fun f hf => PackageSet.mem_withImports himports hdelivers hf, ?_⟩
  intro b hb name hpath p hp source hsource file hfile
  obtain ⟨c, hc, rfl, hsub⟩ := (hdelivers b hb).reaches hpath
  obtain ⟨f, hf, rfl⟩ := hc.produced himports hp hsource hfile
  refine List.mem_map.mpr ⟨f, PackageSet.mem_withImports himports hdelivers ?_, rfl⟩
  exact PackageSet.mem_allFilesList.mpr ⟨b, hb, hsub f hf⟩

theorem namesFiles_twoPackages : twoPackages.NamesFiles :=
  .of_alone rfl rfl

theorem withImports_selfContained_twoPackages :
    ∃ s b, Calls (· = twoPackages) {} s ∧ GivenOut (· = twoPackages) s b ∧
      ImportsFirst (s.withImports [b]) ∧
      (s.withImports [b]).map FileDescriptor.nameText = ["b/v1/b.proto", "a/v1/a.proto"] := by
  have hs : Calls (· = twoPackages) {} (Call.after twoPackages {} (.compile "a.v1")) :=
    .single ⟨twoPackages, rfl, _, rfl⟩
  obtain ⟨b, hexec⟩ : ∃ b, (twoPackages.compile "a.v1").exec {} =
      (.ok b, Call.after twoPackages {} (.compile "a.v1")) := ⟨_, rfl⟩
  have hb : GivenOut (· = twoPackages) (Call.after twoPackages {} (.compile "a.v1")) b :=
    .compile rfl .refl hexec
  obtain ⟨-, hfirst, -⟩ := withImports_selfContained
    (fun w hw => by rw [hw]; exact namesFiles_twoPackages) hs
    (List.forall_mem_singleton.mpr hb)
  refine ⟨_, b, hs, hb, hfirst, ?_⟩
  cases hexec
  rfl

end Schematic
