import IntervalSuite.Proofs.Pattern.Anchoring
import IntervalSuite.Proofs.Plugin.Discovery

/-!
# Source files by their names

The source files of a run are those whose names match a pattern from their start on. For this the
pattern is put between `^(?:` and `)` as a text, and what is selected is what the resulting pattern
matches. That is what the given one says by itself, as far as both texts are patterns
(`Readers.AnchorsGroups`); but a text that is no pattern may close the group and become one, and a
pattern may be none in the group.

* `Filters`: the files are found that the pattern itself selects.
* `sourceFiles_anchored`: the files that are found, and when these are the ones.
* `sourceFiles_spliced`: there are texts of both kinds for which they are not.
-/

namespace IntervalSuite

/-- A text that is a pattern. -/
def Readers.Valid [Readers] (source : String) : Prop := (Readers.pattern? source).isSome

instance [Readers] (source : String) : Decidable (Readers.Valid source) :=
  inferInstanceAs (Decidable ((Readers.pattern? source).isSome = true))

/-- What `^`, groups, and patterns behind each other match: a pattern in a group behind `^` matches
what the pattern matches at the start of a text, and nothing else. This is said of texts that are
patterns by themselves and in the group; a reader may take or refuse a text in either place for
reasons of its own. -/
def Readers.AnchorsGroups [Readers] : Prop :=
  ∀ source p q, Readers.pattern? source = some p →
    Readers.pattern? ("^(?:" ++ source ++ ")") = some q →
    ∀ text start, q.matchEnd? text start = if start = 0 then p.matchEnd? text 0 else none

end IntervalSuite

namespace IntervalSuite.Plugin

open FileTree
open Readers (Valid AnchorsGroups)

/-- The paths of the source files in the directory at the location whose names are selected, in their
order and each of them once. -/
structure Lists (tree : FileTree) (directory : String) (location : Location)
    (selected : String → Prop) (files : List String) : Prop where
  sorted : files.Pairwise (· < ·)
  mem_iff : ∀ path, path ∈ files ↔ ∃ name, path = Path.join directory name ∧
    (∃ content, tree.get? (location ++ [name]) = some (.file content)) ∧
    sourceEnding.toList <:+ name.toList ∧ selected name

section

variable [Readers] {tree : FileTree} {directory pattern : String} {location : Location}

/-- The files are found that the pattern selects: those whose names have a match of the pattern that
starts with their first character. Only a text that is no pattern is refused. -/
structure Filters (tree : FileTree) (directory : String) (location : Location) (pattern : String) :
    Prop where
  error_iff : sourceFiles tree directory pattern = .error (.filePattern pattern) ↔ ¬ Valid pattern
  files : ∀ p, Readers.pattern? pattern = some p →
    ∃ files, sourceFiles tree directory pattern = .ok files ∧
      Lists tree directory location (fun name => (p.matchEnd? name 0).isSome) files

/-- The names that are found are those that match the pattern with the group around it. -/
theorem mem_of_sourceNames (hdirectory : tree.resolve? directory = some (location, .directory))
    {q : Matcher} (hq : Readers.pattern? ("^(?:" ++ pattern ++ ")") = some q) :
    ∃ names, sourceNames tree directory pattern = .ok names ∧
      ∀ name, name ∈ names ↔
        (∃ content, tree.get? (location ++ [name]) = some (.file content)) ∧
          sourceEnding.toList <:+ name.toList ∧ q.matches name := by
  obtain ⟨listed, hlisted⟩ : ∃ listed, tree.list? directory = some listed := by
    simp [list?, hdirectory]
  simp only [sourceNames, hq, hlisted]
  refine ⟨_, rfl, fun name => ?_⟩
  obtain ⟨location', hlocation, hmem⟩ := mem_of_list? hlisted
  obtain rfl : location = location' := by simpa [hdirectory] using hlocation
  simp only [List.mem_filter, Bool.and_eq_true, List.isSuffixOf_iff_suffix, and_assoc]
  constructor
  · rintro ⟨hname, hfile, hkept⟩
    exact ⟨(hasFile_join_iff hdirectory (plain_of_list? hlisted name hname)).mp hfile, hkept⟩
  · rintro ⟨⟨content, hget⟩, hkept⟩
    have hname : name ∈ listed := (hmem name).mpr (by simp [hget])
    exact ⟨hname, (hasFile_join_iff hdirectory (plain_of_list? hlisted name hname)).mpr
      ⟨content, hget⟩, hkept⟩

/-- The paths of the files that are found stand in their order, each of them once. -/
theorem sourceFiles_sorted {names : List String}
    (h : sourceNames tree directory pattern = .ok names) :
    (names.map (Path.join directory)).Pairwise (· < ·) := by
  have hplain := plain_of_sourceNames h
  refine List.pairwise_map.mpr ((sourceNames_sorted h).imp_of_mem fun ha hb hab => ?_)
  exact Path.join_lt_join directory (hplain _ ha).noSlash (hplain _ hb).noSlash hab

/-- The files that are found match the pattern with the group around it. -/
theorem exists_sourceFiles (hdirectory : tree.resolve? directory = some (location, .directory))
    {q : Matcher} (hq : Readers.pattern? ("^(?:" ++ pattern ++ ")") = some q) :
    ∃ files, sourceFiles tree directory pattern = .ok files ∧
      Lists tree directory location (fun name => q.matches name) files := by
  obtain ⟨names, hnames, hmem⟩ := mem_of_sourceNames hdirectory hq
  refine ⟨names.map (Path.join directory), by rw [sourceFiles, hnames]; rfl,
    sourceFiles_sorted hnames, fun path => ?_⟩
  simp only [List.mem_map, hmem]
  constructor
  · rintro ⟨name, hselected, rfl⟩
    exact ⟨name, rfl, hselected⟩
  · rintro ⟨name, rfl, hselected⟩
    exact ⟨name, hselected, rfl⟩

/-- A text is refused if it is no pattern with the group around it. -/
theorem sourceFiles_eq_error_iff
    (hdirectory : tree.resolve? directory = some (location, .directory)) :
    sourceFiles tree directory pattern = .error (.filePattern pattern) ↔
      ¬ Valid ("^(?:" ++ pattern ++ ")") := by
  cases hq : Readers.pattern? ("^(?:" ++ pattern ++ ")") with
  | none =>
    refine iff_of_true ?_ (by simp [Valid, hq])
    simp only [sourceFiles, sourceNames, hq]
    rfl
  | some q =>
    obtain ⟨files, hfiles, -⟩ := exists_sourceFiles hdirectory hq
    refine iff_of_false ?_ (by simp [Valid, hq])
    rw [hfiles]
    nofun

/-- In the group, a pattern matches somewhere if by itself it matches at the start. -/
theorem matches_iff_of_anchorsGroups (h : AnchorsGroups) {p q : Matcher}
    (hp : Readers.pattern? pattern = some p)
    (hq : Readers.pattern? ("^(?:" ++ pattern ++ ")") = some q) (name : String) :
    q.matches name ↔ (p.matchEnd? name 0).isSome := by
  simp only [Matcher.matches, List.any_eq_true, List.mem_range, h pattern p q hp hq]
  constructor
  · rintro ⟨start, -, hstart⟩
    split at hstart
    · exact hstart
    · cases hstart
  · intro hstart
    exact ⟨0, Nat.succ_pos _, hstart⟩

/-- **The files that are found** in a directory are those that match the pattern with the group
around it, and a text that gives no pattern there is refused. So the files are those that the pattern
selects, if and only if it is a pattern by itself exactly if it is one in the group. -/
theorem sourceFiles_anchored (hanchors : AnchorsGroups)
    (hdirectory : tree.resolve? directory = some (location, .directory)) :
    (sourceFiles tree directory pattern = .error (.filePattern pattern) ↔
      ¬ Valid ("^(?:" ++ pattern ++ ")")) ∧
    (∀ q, Readers.pattern? ("^(?:" ++ pattern ++ ")") = some q →
      ∃ files, sourceFiles tree directory pattern = .ok files ∧
        Lists tree directory location (fun name => q.matches name) files) ∧
    (Filters tree directory location pattern ↔
      (Valid ("^(?:" ++ pattern ++ ")") ↔ Valid pattern)) := by
  have herror : sourceFiles tree directory pattern = .error (.filePattern pattern) ↔
      ¬ Valid ("^(?:" ++ pattern ++ ")") := sourceFiles_eq_error_iff hdirectory
  refine ⟨herror, fun q => exists_sourceFiles hdirectory, fun h => ?_, fun h => ⟨?_, fun p hp => ?_⟩⟩
  · exact not_iff_not.mp (herror.symm.trans h.error_iff)
  · exact herror.trans (not_congr h)
  · obtain ⟨q, hq⟩ := Option.isSome_iff_exists.mp (h.mpr (by simp [Valid, hp]))
    obtain ⟨files, hfiles, hlists⟩ := exists_sourceFiles hdirectory hq
    refine ⟨files, hfiles, hlists.sorted, fun path => (hlists.mem_iff path).trans ?_⟩
    simp only [matches_iff_of_anchorsGroups hanchors hp hq]

end

/-! ## The readers of the program -/

theorem anchorsGroups_standard : AnchorsGroups := by
  intro source matcher whole hmatcher hwhole
  obtain ⟨p, hp, rfl⟩ := Option.map_eq_some_iff.mp hmatcher
  obtain ⟨q, hq, rfl⟩ := Option.map_eq_some_iff.mp hwhole
  exact Pattern.matchEnd?_anchored hp hq

/-- Three source files. -/
def filterTree : FileTree where
  entries := ⟨[(["itl"], .directory), (["itl", "ax.itl"], .file (.text "")),
    (["itl", "c.itl"], .file (.text "")), (["itl", "xb.itl"], .file (.text ""))],
    by decide, by decide⟩
  nodup := by decide
  workingDirectory := []

theorem resolve?_filterTree : filterTree.resolve? "itl" = some (["itl"], .directory) := rfl

theorem list?_filterTree : filterTree.list? "itl" = some ["ax.itl", "c.itl", "xb.itl"] := by
  have hchildren : filterTree.children ["itl"] = ["ax.itl", "c.itl", "xb.itl"] := rfl
  rw [list?, resolve?_filterTree]
  simp only [hchildren]
  rw [List.mergeSort_of_pairwise (by decide)]

/-- A choice between two characters selects the files that start with one of them. -/
theorem sourceFiles_anchored_filterTree :
    AnchorsGroups ∧ filterTree.resolve? "itl" = some (["itl"], .directory) ∧
    sourceNames filterTree "itl" "a|x" = .ok ["ax.itl", "xb.itl"] ∧
    Valid "a|x" ∧ Filters filterTree "itl" ["itl"] "a|x" := by
  have hnames : sourceNames filterTree "itl" "a|x" = .ok ["ax.itl", "xb.itl"] ∧
      Valid "^(?:a|x)" ∧ Valid "a|x" := by
    unfold sourceNames
    rewrite [list?_filterTree]
    decide +kernel
  obtain ⟨hnames, hgroup, hvalid⟩ := hnames
  refine ⟨anchorsGroups_standard, resolve?_filterTree, hnames, hvalid, ?_⟩
  exact (sourceFiles_anchored anchorsGroups_standard resolve?_filterTree).2.2.mpr
    (iff_of_true hgroup hvalid)

/-- A text that closes the group and opens another one is no pattern, but selects files; a pattern
that ends in a comment selects none. -/
theorem sourceNames_filterTree :
    (¬ Valid "a)|(b" ∧ sourceNames filterTree "itl" "a)|(b" = .ok ["ax.itl", "xb.itl"]) ∧
    Valid "(?x)a#" ∧
      sourceNames filterTree "itl" "(?x)a#" = .error (.filePattern "(?x)a#") := by
  unfold sourceNames
  rewrite [list?_filterTree]
  decide +kernel

/-- Not every text is taken for what it is by itself. -/
theorem sourceFiles_spliced :
    (¬ ∀ (tree : FileTree) (directory pattern : String) (location : Location),
      tree.resolve? directory = some (location, .directory) → ¬ Valid pattern →
        sourceFiles tree directory pattern = .error (.filePattern pattern)) ∧
    ¬ ∀ (tree : FileTree) (directory pattern : String) (location : Location),
      tree.resolve? directory = some (location, .directory) →
        sourceFiles tree directory pattern = .error (.filePattern pattern) → ¬ Valid pattern := by
  obtain ⟨⟨hinvalid, hok⟩, hvalid, herror⟩ := sourceNames_filterTree
  refine ⟨fun h => ?_, fun h => ?_⟩
  · have hclosed := h _ _ _ _ resolve?_filterTree hinvalid
    rw [sourceFiles, hok] at hclosed
    cases hclosed
  · refine h _ _ _ _ resolve?_filterTree ?_ hvalid
    rw [sourceFiles, herror]
    rfl

end IntervalSuite.Plugin
