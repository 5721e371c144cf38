import IntervalSuite.Plugin.Tree
import IntervalSuite.Proofs.Fallible
import IntervalSuite.Proofs.FileTree.Naming
import IntervalSuite.Proofs.Plugin.Spelling

/-!
# What is found in a tree

The source files and the configurations of a run are found by listing directories, and a listing
gives names in their order.

* `sourceNames_eq_ok`, `sourceNames_sorted`: the names of source files.
* `Selector.plain_of_parse?`: the names in a selector that has been read are plain.
* `plain_of_configurations`: the names of a configuration are plain if those that the selector gives
  are.
-/

namespace IntervalSuite.Plugin

open FileTree
open IntervalSuite.Path (Plain)

/-! ## Source files -/

section

variable [Readers]

theorem sourceNames_eq_ok {tree : FileTree} {directory pattern : String} {names : List String}
    (h : sourceNames tree directory pattern = .ok names) :
    ∃ listed, tree.list? directory = some listed ∧ names.Sublist listed ∧
      ∀ name ∈ names, tree.hasFile (Path.join directory name) := by
  unfold sourceNames at h
  split at h
  · cases h
  · split at h
    · cases h
    · rename_i listed hlisted
      obtain rfl := Except.ok.inj h
      refine ⟨listed, hlisted, List.filter_sublist, fun name hname => ?_⟩
      have hkept := (List.mem_filter.mp hname).2
      simp only [Bool.and_eq_true] at hkept
      exact hkept.1.1

theorem sourceNames_sorted {tree : FileTree} {directory pattern : String} {names : List String}
    (h : sourceNames tree directory pattern = .ok names) : names.Pairwise (· < ·) := by
  obtain ⟨listed, hlisted, hsub, -⟩ := sourceNames_eq_ok h
  exact (pairwise_of_list? hlisted).sublist hsub

theorem plain_of_sourceNames {tree : FileTree} {directory pattern : String} {names : List String}
    (h : sourceNames tree directory pattern = .ok names) : ∀ name ∈ names, Plain name := by
  obtain ⟨listed, hlisted, hsub, -⟩ := sourceNames_eq_ok h
  exact fun name hname => plain_of_list? hlisted name (hsub.subset hname)

theorem ending_of_sourceNames {tree : FileTree} {directory pattern : String} {names : List String}
    (h : sourceNames tree directory pattern = .ok names) :
    ∀ name ∈ names, sourceEnding.toList <:+ name.toList := by
  unfold sourceNames at h
  split at h
  · cases h
  · split at h
    · cases h
    · obtain rfl := Except.ok.inj h
      intro name hname
      have hkept := (List.mem_filter.mp hname).2
      simp only [Bool.and_eq_true] at hkept
      exact List.isSuffixOf_iff_suffix.mp hkept.1.2

end

/-! ## Configurations -/

/-- The three names of a configuration are plain. -/
structure Configuration.Plain (configuration : Configuration) : Prop where
  language : Path.Plain configuration.language
  testLibrary : Path.Plain configuration.testLibrary
  arithLibrary : Path.Plain configuration.arithLibrary

/-- The names that a choice gives are plain. -/
structure Choice.Plain (choice : Choice) : Prop where
  language : ∀ name ∈ choice.language, Path.Plain name
  testLibrary : ∀ name ∈ choice.testLibrary, Path.Plain name
  arithLibrary : ∀ name ∈ choice.arithLibrary, Path.Plain name

/-- The names that a selector gives are plain. -/
def Selector.Plain (selector : Selector) : Prop := ∀ choice ∈ selector.toList, choice.Plain

theorem plain_of_isIdentifier {name : List Char} (h : isIdentifier name) :
    Path.Plain (String.ofList name) := by
  cases name with
  | nil => cases h
  | cons c cs =>
    simp only [isIdentifier, Bool.and_eq_true, List.all_eq_true] at h
    obtain ⟨halpha, hparts⟩ := h
    have hdot : c ≠ '.' := by
      rintro rfl
      cases halpha
    have hslash : c ≠ '/' := by
      rintro rfl
      cases halpha
    refine ⟨by simp [← String.toList_inj], by simp [← String.toList_inj, hdot],
      by simp [← String.toList_inj, hdot], ?_⟩
    rw [String.toList_ofList, List.mem_cons, not_or]
    exact ⟨hslash.symm, fun hmem => by cases hparts '/' hmem⟩

theorem Named.plain {given : Option String} (h : Named given) : ∀ name ∈ given, Path.Plain name := by
  intro name hname
  have hplain := plain_of_isIdentifier (h name hname)
  rwa [String.ofList_toList] at hplain

/-- A selector that has been read gives plain names. -/
theorem Selector.plain_of_parse? {s : String} {selector : Selector}
    (h : Selector.parse? s = some selector) : selector.Plain := by
  intro choice hchoice
  cases selector with
  | all =>
    obtain rfl := List.mem_singleton.mp hchoice
    exact ⟨nofun, nofun, nofun⟩
  | choices choices =>
    have hnamed := (Selector.parse?_eq_choices_iff.mp h).named choice hchoice
    exact ⟨hnamed.language.plain, hnamed.testLibrary.plain, hnamed.arithLibrary.plain⟩

section

variable {tree : FileTree} {root : String}

theorem plain_of_subdirectories {path : String} {names : List String}
    (h : subdirectories tree path = .ok names) : ∀ name ∈ names, Plain name := by
  unfold subdirectories at h
  split at h
  · rename_i listed hlisted
    obtain rfl := Except.ok.inj h
    exact fun name hname => plain_of_list? hlisted name (List.mem_of_mem_filter hname)
  · cases h

theorem plain_of_candidates {given : Option String} {path : String} {names : List String}
    (hgiven : ∀ name ∈ given, Plain name)
    (h : candidates given (subdirectories tree path) = .ok names) : ∀ name ∈ names, Plain name := by
  cases given with
  | some name =>
    obtain rfl := Except.ok.inj h
    simpa using hgiven
  | none => exact plain_of_subdirectories h

theorem plain_of_expandLanguage {choice : Choice} (hchoice : choice.Plain) {language : String}
    (hlanguage : Plain language) {found : List Configuration}
    (h : expandLanguage tree root choice language = .ok found) : ∀ c ∈ found, c.Plain := by
  simp only [expandLanguage, bind_eq_ok_iff, pure_eq_ok_iff] at h
  obtain ⟨tests, htests, ariths, hariths, rfl⟩ := h
  intro c hc
  simp only [List.mem_flatMap, List.mem_map] at hc
  obtain ⟨test, htest, arith, harith, rfl⟩ := hc
  exact ⟨hlanguage, plain_of_candidates hchoice.testLibrary htests test htest,
    plain_of_candidates hchoice.arithLibrary hariths arith harith⟩

theorem plain_of_expand {choice : Choice} (hchoice : choice.Plain) {found : List Configuration}
    (h : expand tree root choice = .ok found) : ∀ c ∈ found, c.Plain := by
  simp only [expand, bind_eq_ok_iff, pure_eq_ok_iff] at h
  obtain ⟨names, hnames, groups, hgroups, rfl⟩ := h
  intro c hc
  obtain ⟨group, hgroup, hmem⟩ := List.mem_flatten.mp hc
  obtain ⟨language, hlanguage, hexpand⟩ := exists_of_mem_mapM hgroups hgroup
  have hplain := plain_of_candidates hchoice.language hnames language hlanguage
  exact plain_of_expandLanguage hchoice hplain hexpand c hmem

/-- **The names of a configuration** are found in the tree or given by the selector. -/
theorem plain_of_configurations {selector : Selector} (hselector : selector.Plain)
    {found : List Configuration} (h : configurations tree root selector = .ok found) :
    ∀ c ∈ found, c.Plain := by
  simp only [configurations, bind_eq_ok_iff, pure_eq_ok_iff] at h
  obtain ⟨groups, hgroups, rfl⟩ := h
  intro c hc
  obtain ⟨group, hgroup, hmem⟩ := List.mem_flatten.mp (List.mem_eraseDups.mp hc)
  obtain ⟨choice, hchoice, hexpand⟩ := exists_of_mem_mapM hgroups hgroup
  exact plain_of_expand (hselector choice hchoice) hexpand c hmem

end

end IntervalSuite.Plugin
