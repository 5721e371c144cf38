import IntervalSuite.Proofs.Plugin.Discovery
import IntervalSuite.Proofs.Run.Progress

/-!
# The plan of a run

A run first finds its source files and loads its destinations. From then on it knows every path that
it may write to.

* `planned_of_plan`, `plan_eq_error`: what a plan consists of, and why there may be none.
* `SourcesApart`: no output leads to a source file.
* `path_congr`: different output paths lead to different places.
-/

namespace IntervalSuite.Run

open FileTree
open IntervalSuite.Path (Plain)

/-! ## Output paths -/

theorem noSlash_stem {name : String} (h : '/' ∉ name.toList) : '/' ∉ (Path.stem name).toList := by
  simp only [Path.stem]
  split
  · exact h
  · rw [String.toList_ofList]
    exact fun hmem => h (List.mem_of_mem_take hmem)

theorem locate_outputPath (tree : FileTree) (root : String) {destination : Destination}
    {stem : String} (hplain : destination.configuration.Plain)
    (hname : Plain (stem ++ destination.extension)) :
    tree.locate (outputPath root destination stem) =
      tree.locate root ++ [destination.configuration.language,
        destination.configuration.testLibrary, destination.configuration.arithLibrary,
        stem ++ destination.extension] := by
  rw [outputPath, outputDirectory, locate_join _ _ hname, locate_join _ _ hplain.arithLibrary,
    locate_join _ _ hplain.testLibrary, locate_join _ _ hplain.language]
  simp

/-- Output paths that lead to one place are the same. -/
theorem outputPath_congr {tree : FileTree} {root : String} {d d' : Destination} {stem stem' : String}
    (hd : d.configuration.Plain) (hd' : d'.configuration.Plain)
    (hname : Plain (stem ++ d.extension)) (hname' : Plain (stem' ++ d'.extension))
    (h : tree.locate (outputPath root d stem) = tree.locate (outputPath root d' stem')) :
    outputPath root d stem = outputPath root d' stem' := by
  rw [locate_outputPath _ _ hd hname, locate_outputPath _ _ hd' hname',
    List.append_cancel_left_eq] at h
  simp only [List.cons.injEq, and_true] at h
  obtain ⟨hlanguage, htest, harith, hfile⟩ := h
  rw [outputPath, outputPath, outputDirectory, outputDirectory, hlanguage, htest, harith, hfile]

/-- The file name of an output is plain, because it has been written. -/
theorem plain_of_outputPath {root name : String} {destination : Destination} (hname : Plain name)
    (hextension : '/' ∉ destination.extension.toList)
    (hends : EndsInName (outputPath root destination (Path.stem name))) :
    Plain (Path.stem name ++ destination.extension) := by
  refine plain_of_endsInName ?_ hends
  rw [String.toList_append, List.mem_append, not_or]
  exact ⟨noSlash_stem hname.noSlash, hextension⟩

/-! ## Plans -/

variable [Readers]

/-- The source files and the destinations of a run, in their order. -/
structure Planned (tree : FileTree) (options : Options) (names : List String)
    (destinations : List Destination) : Prop where
  sources : Plugin.sourceNames tree options.sourceDirectory options.filePattern = .ok names
  sorted : names.Pairwise (· < ·)
  configurations : Plugin.configurations tree options.pluginDirectory options.selector =
    .ok (destinations.map (·.configuration))
  loaded : ∀ destination ∈ destinations,
    loadDestination tree options.pluginDirectory destination.configuration = .ok destination

theorem configuration_of_loadDestination {tree : FileTree} {root : String}
    {configuration : Plugin.Configuration} {destination : Destination}
    (h : loadDestination tree root configuration = .ok destination) :
    destination.configuration = configuration := by
  simp only [loadDestination, bind_eq_ok_iff, pure_eq_ok_iff] at h
  obtain ⟨_, -, _, -, _, -, rfl⟩ := h
  rfl

theorem planned_of_plan {tree : FileTree} {options : Options} {names : List String}
    {destinations : List Destination} (h : plan tree options = .ok (names, destinations)) :
    Planned tree options names destinations := by
  simp only [plan, loadDestinations, bind_eq_ok_iff, pure_eq_ok_iff, mapError_eq_ok_iff,
    Prod.mk.injEq] at h
  obtain ⟨names, hnames, destinations, ⟨configurations, hconfigurations, hload⟩, rfl, rfl⟩ := h
  have hmap : configurations = destinations.map (·.configuration) := by
    have hall := (mapM_eq_ok_iff.mp hload).imp fun _ _ hok =>
      (configuration_of_loadDestination hok).symm
    rwa [← List.forall₂_map_right_iff, List.forall₂_eq_eq_eq] at hall
  refine ⟨hnames, Plugin.sourceNames_sorted hnames, hmap ▸ hconfigurations, fun d hd => ?_⟩
  obtain ⟨configuration, -, hok⟩ := exists_of_mem_mapM hload hd
  rw [configuration_of_loadDestination hok]
  exact hok

/-- There is no plan because of the tree or a specification. -/
theorem plan_eq_error {tree : FileTree} {options : Options} {error : Error}
    (h : plan tree options = .error error) :
    (∃ cause, error = .discovery cause) ∨
      ∃ configuration cause, error = .specification configuration cause := by
  have hload {configuration : Plugin.Configuration}
      (hfail : loadDestination tree options.pluginDirectory configuration = .error error) :
      (∃ cause, error = .discovery cause) ∨
        ∃ configuration cause, error = .specification configuration cause := by
    simp only [loadDestination, bind_eq_error_iff, mapError_eq_error_iff, reduceCtorEq, pure,
      Except.pure, and_false, exists_false, or_false] at hfail
    obtain ⟨cause, -, rfl⟩ | ⟨_, -, ⟨cause, -, rfl⟩ | ⟨_, -, cause, -, rfl⟩⟩ := hfail
    · exact .inl ⟨cause, rfl⟩
    · exact .inl ⟨cause, rfl⟩
    · exact .inr ⟨configuration, cause, rfl⟩
  simp only [plan, loadDestinations, bind_eq_error_iff, mapError_eq_error_iff, reduceCtorEq, pure,
    Except.pure, and_false, exists_false, or_false] at h
  obtain ⟨cause, -, rfl⟩ | ⟨_, -, ⟨cause, -, rfl⟩ | ⟨configurations, -, hfail⟩⟩ := h
  · exact .inl ⟨cause, rfl⟩
  · exact .inl ⟨cause, rfl⟩
  · obtain ⟨configuration, -, hfail⟩ := exists_of_mapM_eq_error hfail
    exact hload hfail

/-- No output of a run leads to one of its source files. -/
def SourcesApart (tree : FileTree) (options : Options) : Prop :=
  ∀ work ∈ (plan tree options).toOption, ∀ source ∈ work.1, ∀ name ∈ work.1,
    ∀ destination ∈ work.2,
      tree.locate (outputPath options.outputDirectory destination (Path.stem name)) ≠
        tree.locate (Path.join options.sourceDirectory source)

instance (tree : FileTree) (options : Options) : Decidable (SourcesApart tree options) :=
  inferInstanceAs (Decidable (∀ work ∈ (plan tree options).toOption, _))

theorem SourcesApart.apart {tree : FileTree} {options : Options} {names : List String}
    {destinations : List Destination} (h : SourcesApart tree options)
    (hplan : plan tree options = .ok (names, destinations)) :
    Apart tree options names destinations where
  hasFile := by
    obtain ⟨_, -, -, hfile⟩ := Plugin.sourceNames_eq_ok (planned_of_plan hplan).sources
    exact hfile
  locate_ne := h (names, destinations) (by rw [hplan]; rfl)

/-- **Different output paths lead to different places.** -/
theorem path_congr {tree : FileTree} {options : Options} {names : List String}
    {destinations : List Destination} (hselector : options.selector.Plain)
    (hplanned : Planned tree options names destinations)
    (hextension : ∀ destination ∈ destinations, '/' ∉ destination.extension.toList)
    {a b : Output} (ha : a ∈ outputs options (pairs tree options names destinations))
    (hb : b ∈ outputs options (pairs tree options names destinations))
    (hendsa : EndsInName a.path) (hendsb : EndsInName b.path)
    (h : tree.locate a.path = tree.locate b.path) : a.path = b.path := by
  have hnames := Plugin.plain_of_sourceNames hplanned.sources
  have hconfigurations : ∀ destination ∈ destinations, destination.configuration.Plain :=
    List.forall_mem_map.mp (Plugin.plain_of_configurations hselector hplanned.configurations)
  obtain ⟨name, hname, d, hd, ha⟩ := mem_outputs_pairs ha
  obtain ⟨name', hname', d', hd', hb⟩ := mem_outputs_pairs hb
  rw [ha] at h hendsa ⊢
  rw [hb] at h hendsb ⊢
  exact outputPath_congr (hconfigurations d hd) (hconfigurations d' hd')
    (plain_of_outputPath (hnames name hname) (hextension d hd) hendsa)
    (plain_of_outputPath (hnames name' hname') (hextension d' hd') hendsb) h

end IntervalSuite.Run
