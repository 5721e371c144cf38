import IntervalSuite.Proofs.Distinct
import IntervalSuite.Proofs.Plugin.Discovery

/-!
# The configurations of a selector

A selector is expanded choice by choice. A choice is expanded in order: language by language, and for
each of them test library by test library and arithmetic library by arithmetic library. What fits
several choices stands where it is found first.

* `mem_expand`, `before_expand`: what one choice gives, and in which order.
* `configurations_append`: the choices of a second selector add what the first one does not give.
* `configurations_union`: the configurations of a selector.
-/

namespace IntervalSuite.Plugin

open FileTree

/-! ## What fits a choice -/

/-- The path leads to a directory, in which there is a directory with this name, and the name does not
hide it. -/
def VisibleDirectory (tree : FileTree) (path name : String) : Prop :=
  isHidden name = false ∧ ∃ location, tree.resolve? path = some (location, .directory) ∧
    tree.get? (location ++ [name]) = some .directory

/-- The name is the given one, or if none is given, one of those that are found. -/
def Allows (given : Option String) (found : String → Prop) (name : String) : Prop :=
  match given with
  | some given => name = given
  | none => found name

/-- The configuration fits the choice. A name that is left open is that of a visible directory: of the
root of the plugins, and of the directories `test` and `arith` of the language. -/
structure Choice.Fits (tree : FileTree) (root : String) (choice : Choice) (c : Configuration) :
    Prop where
  language : Allows choice.language (VisibleDirectory tree root) c.language
  testLibrary : Allows choice.testLibrary
    (VisibleDirectory tree (Path.join (Path.join root c.language) "test")) c.testLibrary
  arithLibrary : Allows choice.arithLibrary
    (VisibleDirectory tree (Path.join (Path.join root c.language) "arith")) c.arithLibrary

section

variable {tree : FileTree} {root path : String} {given : Option String} {choice : Choice}
  {names : List String} {found : List Configuration}

theorem mem_subdirectories (h : subdirectories tree path = .ok names) (name : String) :
    name ∈ names ↔ VisibleDirectory tree path name := by
  unfold subdirectories at h
  split at h
  · rename_i listed hlisted
    obtain rfl := Except.ok.inj h
    obtain ⟨location, hresolve, hlist⟩ := mem_of_list? hlisted
    have hget : VisibleDirectory tree path name ↔
        isHidden name = false ∧ tree.get? (location ++ [name]) = some .directory := by
      simp [VisibleDirectory, hresolve]
    rw [hget, List.mem_filter, hlist]
    by_cases hentry : tree.get? (location ++ [name]) = none
    · simp [hentry]
    · have hplain := plain_of_get? hentry name (by simp)
      rw [Bool.and_eq_true, hasDirectory_join_iff hresolve hplain]
      simp [hentry, and_comm]
  · cases h

theorem sorted_subdirectories (h : subdirectories tree path = .ok names) :
    names.Pairwise (· < ·) := by
  unfold subdirectories at h
  split at h
  · rename_i listed hlisted
    obtain rfl := Except.ok.inj h
    exact (pairwise_of_list? hlisted).sublist List.filter_sublist
  · cases h

theorem mem_candidates (h : candidates given (subdirectories tree path) = .ok names)
    (name : String) :
    name ∈ names ↔ Allows given (VisibleDirectory tree path) name := by
  cases given with
  | some given =>
    obtain rfl := Except.ok.inj h
    exact List.mem_singleton
  | none => exact mem_subdirectories h name

theorem sorted_candidates (h : candidates given (subdirectories tree path) = .ok names) :
    names.Pairwise (· < ·) := by
  cases given with
  | some given =>
    obtain rfl := Except.ok.inj h
    exact List.pairwise_singleton _ _
  | none => exact sorted_subdirectories h

/-! ## One choice -/

/-- The order by language, then by test library, then by arithmetic library. -/
def Configuration.Before (c d : Configuration) : Prop :=
  Prod.Lex (· < ·) (Prod.Lex (· < ·) (· < ·)) (c.language, c.testLibrary, c.arithLibrary)
    (d.language, d.testLibrary, d.arithLibrary)

/-- The libraries of a language are combined in order. -/
theorem expandLanguage_eq_ok {language : String}
    (h : expandLanguage tree root choice language = .ok found) :
    ∃ tests ariths,
      candidates choice.testLibrary (testLibraries tree root language) = .ok tests ∧
      candidates choice.arithLibrary (arithLibraries tree root language) = .ok ariths ∧
      (∀ c, c ∈ found ↔
        c.language = language ∧ c.testLibrary ∈ tests ∧ c.arithLibrary ∈ ariths) ∧
      found.Pairwise Configuration.Before := by
  simp only [expandLanguage, bind_eq_ok_iff, pure_eq_ok_iff] at h
  obtain ⟨tests, htests, ariths, hariths, rfl⟩ := h
  refine ⟨tests, ariths, htests, hariths, fun c => ?_, ?_⟩
  · simp only [List.mem_flatMap, List.mem_map]
    constructor
    · rintro ⟨test, htest, arith, harith, rfl⟩
      exact ⟨rfl, htest, harith⟩
    · rintro ⟨rfl, htest, harith⟩
      exact ⟨_, htest, _, harith, rfl⟩
  · refine List.pairwise_flatMap.mpr ⟨fun test _ => List.pairwise_map.mpr ?_, ?_⟩
    · exact (sorted_candidates hariths).imp fun hlt => .right _ (.right _ hlt)
    · refine (sorted_candidates htests).imp fun hlt c hc d hd => ?_
      obtain ⟨_, -, rfl⟩ := List.mem_map.mp hc
      obtain ⟨_, -, rfl⟩ := List.mem_map.mp hd
      exact .right _ (.left _ _ hlt)

/-- **A choice gives what fits it.** -/
theorem mem_expand (h : expand tree root choice = .ok found) (c : Configuration) :
    c ∈ found ↔ choice.Fits tree root c := by
  simp only [expand, bind_eq_ok_iff, pure_eq_ok_iff] at h
  obtain ⟨names, hnames, groups, hgroups, rfl⟩ := h
  rw [mem_flatten_of_mapM hgroups]
  constructor
  · rintro ⟨language, hlanguage, group, hgroup, hc⟩
    obtain ⟨tests, ariths, htests, hariths, hmem, -⟩ := expandLanguage_eq_ok hgroup
    obtain ⟨rfl, htest, harith⟩ := (hmem c).mp hc
    exact ⟨(mem_candidates hnames _).mp hlanguage, (mem_candidates htests _).mp htest,
      (mem_candidates hariths _).mp harith⟩
  · rintro ⟨hlanguage, htest, harith⟩
    have hname := (mem_candidates hnames _).mpr hlanguage
    obtain ⟨group, -, hgroup⟩ := eq_ok_of_mapM hgroups hname
    obtain ⟨tests, ariths, htests, hariths, hmem, -⟩ := expandLanguage_eq_ok hgroup
    refine ⟨c.language, hname, group, hgroup, (hmem c).mpr ⟨rfl, ?_, ?_⟩⟩
    · exact (mem_candidates htests _).mpr htest
    · exact (mem_candidates hariths _).mpr harith

/-- **A choice is expanded in order.** -/
theorem before_expand (h : expand tree root choice = .ok found) :
    found.Pairwise Configuration.Before := by
  simp only [expand, bind_eq_ok_iff, pure_eq_ok_iff] at h
  obtain ⟨names, hnames, groups, hgroups, rfl⟩ := h
  refine pairwise_flatten_of_mapM hgroups (sorted_candidates hnames) ?_ ?_
  · intro language group hgroup
    obtain ⟨_, _, -, -, -, hordered⟩ := expandLanguage_eq_ok hgroup
    exact hordered
  · intro language language' group group' hlt hgroup hgroup' c hc d hd
    obtain ⟨_, _, -, -, hmem, -⟩ := expandLanguage_eq_ok hgroup
    obtain ⟨_, _, -, -, hmem', -⟩ := expandLanguage_eq_ok hgroup'
    obtain ⟨rfl, -⟩ := (hmem c).mp hc
    obtain ⟨rfl, -⟩ := (hmem' d).mp hd
    exact .left _ _ hlt

/-! ## Selectors -/

theorem Configuration.Before.ne {c d : Configuration} (h : c.Before d) : c ≠ d := by
  rintro rfl
  obtain hlt | ⟨-, h⟩ := Prod.lex_def.mp h
  · exact lt_irrefl _ hlt
  · obtain hlt | ⟨-, hlt⟩ := Prod.lex_def.mp h
    · exact lt_irrefl _ hlt
    · exact lt_irrefl _ hlt

/-- A selector gives what fits one of its choices. -/
theorem mem_configurations {selector : Selector}
    (h : configurations tree root selector = .ok found) (c : Configuration) :
    c ∈ found ↔ ∃ choice ∈ selector.toList, choice.Fits tree root c := by
  simp only [configurations, bind_eq_ok_iff, pure_eq_ok_iff] at h
  obtain ⟨groups, hgroups, rfl⟩ := h
  rw [List.mem_eraseDups, mem_flatten_of_mapM hgroups]
  constructor
  · rintro ⟨choice, hchoice, group, hgroup, hc⟩
    exact ⟨choice, hchoice, (mem_expand hgroup c).mp hc⟩
  · rintro ⟨choice, hchoice, hfits⟩
    obtain ⟨group, -, hgroup⟩ := eq_ok_of_mapM hgroups hchoice
    exact ⟨choice, hchoice, group, hgroup, (mem_expand hgroup c).mpr hfits⟩

/-- More choices add what the first ones do not give. -/
theorem configurations_append {ts us : List Choice} {more : List Configuration}
    (h : configurations tree root (.choices ts) = .ok found)
    (hmore : configurations tree root (.choices us) = .ok more) :
    configurations tree root (.choices (ts ++ us)) = .ok (found ++ more.filter (· ∉ found)) := by
  simp only [configurations, Selector.toList, bind_eq_ok_iff, pure_eq_ok_iff] at h hmore ⊢
  obtain ⟨groups, hgroups, rfl⟩ := h
  obtain ⟨groups', hgroups', rfl⟩ := hmore
  refine ⟨groups ++ groups', ?_, ?_⟩
  · rw [List.mapM_append, hgroups, hgroups']
    rfl
  · rw [List.flatten_append, eraseDups_append_filter]

/-- The configurations of a single choice stand in their order. -/
theorem before_configurations (h : configurations tree root (.choices [choice]) = .ok found) :
    found.Pairwise Configuration.Before := by
  simp only [configurations, Selector.toList, List.mapM_cons, List.mapM_nil, bind_eq_ok_iff,
    pure_eq_ok_iff] at h
  obtain ⟨groups, ⟨group, hgroup, rest, rfl, rfl⟩, rfl⟩ := h
  have hbefore := before_expand hgroup
  rw [List.flatten_singleton, eraseDups_of_nodup (hbefore.imp Configuration.Before.ne)]
  exact hbefore

end

/-- **Expansion is an ordered union.** Where the choices `ts` and `us` can be expanded:

* no configuration is given twice, and those are given that fit one of the choices;
* together, the choices give what `ts` gives, and behind it what `us` gives besides, in order;
* all configurations are those that fit the choice that leaves every name open, and they stand in
  the order of their names. -/
theorem configurations_union (tree : FileTree) (root : String) {ts us : List Choice}
    {found more : List Configuration} (h : configurations tree root (.choices ts) = .ok found)
    (hmore : configurations tree root (.choices us) = .ok more) :
    found.Nodup ∧
    (∀ c, c ∈ found ↔ ∃ choice ∈ ts, choice.Fits tree root c) ∧
    configurations tree root (.choices (ts ++ us)) = .ok (found ++ more.filter (· ∉ found)) ∧
    configurations tree root .all = configurations tree root (.choices [⟨none, none, none⟩]) ∧
    ∀ all, configurations tree root .all = .ok all → all.Pairwise Configuration.Before := by
  refine ⟨?_, mem_configurations h, configurations_append h hmore, rfl,
    fun all hall => before_configurations hall⟩
  simp only [configurations, bind_eq_ok_iff, pure_eq_ok_iff] at h
  obtain ⟨groups, -, rfl⟩ := h
  exact (firstOccurrences_eraseDups _).nodup

/-- Two languages, besides a file and a directory that is hidden. -/
def pluginTree : FileTree where
  entries := ⟨[
    (["p"], .directory), (["p", "README"], .file (.text "")), (["p", "__cache"], .directory),
    (["p", "a"], .directory), (["p", "a", "test"], .directory),
    (["p", "a", "test", "t"], .directory), (["p", "a", "arith"], .directory),
    (["p", "a", "arith", "x"], .directory), (["p", "b"], .directory),
    (["p", "b", "test"], .directory), (["p", "b", "test", "u"], .directory),
    (["p", "b", "arith"], .directory), (["p", "b", "arith", "x"], .directory)], by decide, by decide⟩
  nodup := by decide
  workingDirectory := []

theorem languages_pluginTree : languages pluginTree "p" = .ok ["a", "b"] := by
  -- Sorting does not reduce by itself; the names are in their order already.
  have hlist : pluginTree.list? "p" = some ["README", "__cache", "a", "b"] := by
    have hresolve : pluginTree.resolve? "p" = some (["p"], .directory) := rfl
    have hchildren : pluginTree.children ["p"] = ["README", "__cache", "a", "b"] := rfl
    rw [list?, hresolve]
    simp only [hchildren]
    rw [List.mergeSort_of_pairwise (by decide)]
  rw [languages, subdirectories, hlist]
  decide +kernel

/-- A library that is given is not looked for, and what fits two choices is given once. -/
theorem configurations_union_pluginTree :
    configurations pluginTree "p" (.choices [⟨none, some "v", none⟩]) =
        .ok [⟨"a", "v", "x"⟩, ⟨"b", "v", "x"⟩] ∧
      configurations pluginTree "p" (.choices [⟨some "b", none, none⟩, ⟨some "b", some "v", none⟩]) =
        .ok [⟨"b", "u", "x"⟩, ⟨"b", "v", "x"⟩] ∧
      (⟨none, some "v", none⟩ : Choice).Fits pluginTree "p" ⟨"b", "v", "x"⟩ ∧
      configurations pluginTree "p"
          (.choices [⟨none, some "v", none⟩, ⟨some "b", none, none⟩, ⟨some "b", some "v", none⟩]) =
        .ok [⟨"a", "v", "x"⟩, ⟨"b", "v", "x"⟩, ⟨"b", "u", "x"⟩] ∧
      configurations pluginTree "p" .all = .ok [⟨"a", "t", "x"⟩, ⟨"b", "u", "x"⟩] ∧
      [(⟨"a", "t", "x"⟩ : Configuration), ⟨"b", "u", "x"⟩].Pairwise Configuration.Before := by
  have h : configurations pluginTree "p" (.choices [⟨none, some "v", none⟩]) =
      .ok [⟨"a", "v", "x"⟩, ⟨"b", "v", "x"⟩] := by
    unfold configurations expand
    rw [languages_pluginTree]
    decide +kernel
  have hmore : configurations pluginTree "p"
      (.choices [⟨some "b", none, none⟩, ⟨some "b", some "v", none⟩]) =
        .ok [⟨"b", "u", "x"⟩, ⟨"b", "v", "x"⟩] := by decide +kernel
  have hall : configurations pluginTree "p" .all = .ok [⟨"a", "t", "x"⟩, ⟨"b", "u", "x"⟩] := by
    unfold configurations expand
    rw [languages_pluginTree]
    decide +kernel
  obtain ⟨-, hmem, happend, -, hbefore⟩ := configurations_union pluginTree "p" h hmore
  obtain ⟨choice, hchoice, hfits⟩ := (hmem ⟨"b", "v", "x"⟩).mp (by simp)
  obtain rfl := List.mem_singleton.mp hchoice
  exact ⟨h, hmore, hfits, happend, hall, hbefore _ hall⟩

end IntervalSuite.Plugin
