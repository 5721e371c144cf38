import IntervalSuite.Proofs.Distinct
import IntervalSuite.Proofs.Run.Effect
import Mathlib.Data.List.Pairwise

/-!
# Outputs that share a path

The output of a pair is named after the stem of its source file. Two source files have the same stem
only if they are called `.itl` and `.itl.itl`: a dot at the start of a name does not end its stem. So
the outputs of a run stand under different paths, except that the output of `.itl.itl` is written
over that of `.itl`.

Nothing is said here about where the outputs go: they may well be written over source files that the
run has not read yet. A document is the one that its file holds when its turn comes (`Worked`).

* `Path.stem_eq_iff`: which names have the same stem.
* `Worked.reached`, `Worked.pairwise`: the pairs of a run to the end, and their order.
* `locate_eq_iff`: when two outputs lead to one place.
* `run_separated`: the paths and the contents of the outputs.
-/

namespace IntervalSuite.Path

/-! ## Stems -/

/-- The names with one stem, although they are different. -/
def Twins (a b : String) : Prop := a = ".itl" ∧ b = ".itl.itl" ∨ a = ".itl.itl" ∧ b = ".itl"

theorem stem_of_ending {name : String} (h : ".itl".toList <:+ name.toList) :
    (name = ".itl" ∧ stem name = ".itl") ∨
      ∃ front, front ≠ "" ∧ name = front ++ ".itl" ∧ stem name = front := by
  obtain ⟨front, hfront⟩ := h
  have hname : name = String.ofList front ++ ".itl" := by
    rw [← String.toList_inj, ← hfront]
    simp
  -- Behind the last dot stands `itl`, whatever comes before it.
  have hsuffix : name.toList.reverse.takeWhile (· ≠ '.') = ['l', 't', 'i'] := by
    rw [← hfront, List.reverse_append]
    simp
  have hlength : name.toList.length = front.length + 4 := by
    rw [← hfront, List.length_append]
    rfl
  have htake : name.toList.take (name.toList.length - 3 - 1) = front := by
    rw [hlength, ← hfront]
    exact List.take_left
  by_cases hempty : front = []
  · subst hempty
    exact .inl ⟨hname, by rw [hname]; rfl⟩
  · refine .inr ⟨String.ofList front, by simpa using hempty, hname, ?_⟩
    simp only [stem, hsuffix, List.length_cons, List.length_nil, Nat.zero_add, Nat.reduceAdd, htake]
    rw [if_neg]
    simp [hempty, hlength]

/-- **Names with one stem.** -/
theorem stem_eq_iff {a b : String} (ha : ".itl".toList <:+ a.toList)
    (hb : ".itl".toList <:+ b.toList) : stem a = stem b ↔ a = b ∨ Twins a b := by
  constructor
  · intro h
    obtain ⟨rfl, hstem⟩ | ⟨front, -, rfl, hstem⟩ := stem_of_ending ha
    · obtain ⟨rfl, -⟩ | ⟨front', -, rfl, hstem'⟩ := stem_of_ending hb
      · exact .inl rfl
      · obtain rfl : ".itl" = front' := hstem.symm.trans (h.trans hstem')
        exact .inr (.inl ⟨rfl, rfl⟩)
    · obtain ⟨rfl, hstem'⟩ | ⟨front', -, rfl, hstem'⟩ := stem_of_ending hb
      · obtain rfl : front = ".itl" := hstem.symm.trans (h.trans hstem')
        exact .inr (.inr ⟨rfl, rfl⟩)
      · obtain rfl : front = front' := hstem.symm.trans (h.trans hstem')
        exact .inl rfl
  · rintro (rfl | ⟨rfl, rfl⟩ | ⟨rfl, rfl⟩)
    · rfl
    · rfl
    · rfl

/-- The name with the other ending comes later. -/
theorem Twins.eq_of_lt {a b : String} (h : Twins a b) (hlt : a < b) : a = ".itl" ∧ b = ".itl.itl" := by
  obtain hab | ⟨rfl, rfl⟩ := h
  · exact hab
  · exact absurd hlt (by decide)

end IntervalSuite.Path

namespace IntervalSuite.Run

open FileTree
open IntervalSuite.Path (Plain Twins)

/-! ## The pairs of a run -/

/-- The pairs of source files that have been worked on one after the other. Each of them is read
from the tree in which the outputs of those before it have been written. -/
inductive Worked (tree : FileTree) (options : Options) (destinations : List Destination) :
    List String → List Pair → Prop
  | nil : Worked tree options destinations [] []
  | concat {names : List String} {done : List Pair} {now : FileTree} (name : String)
      (before : Worked tree options destinations names done)
      (wrote : Wrote tree (outputs options done) now) :
      Worked tree options destinations (names ++ [name])
        (done ++ filePairs now options destinations name)

theorem mem_filePairs {tree : FileTree} {options : Options} {destinations : List Destination}
    {name : String} {pair : Pair} (h : pair ∈ filePairs tree options destinations name) :
    pair.name = name ∧ pair.destination ∈ destinations := by
  unfold filePairs at h
  split at h
  · obtain ⟨destination, hdestination, rfl⟩ := List.mem_map.mp h
    exact ⟨rfl, hdestination⟩
  · cases h

/-- `a` comes before `b`: its source file does, or they are of one file and different
configurations. -/
def Pair.Before (a b : Pair) : Prop :=
  a.name < b.name ∨
    a.name = b.name ∧ a.destination.configuration ≠ b.destination.configuration

section

variable {tree : FileTree} {options : Options} {names : List String}
  {destinations : List Destination} {done : List Pair}

theorem Worked.mem (h : Worked tree options destinations names done) {pair : Pair}
    (hpair : pair ∈ done) : pair.name ∈ names ∧ pair.destination ∈ destinations := by
  induction h with
  | nil => cases hpair
  | concat name before wrote ih =>
    rcases List.mem_append.mp hpair with hpair | hpair
    · obtain ⟨hname, hdestination⟩ := ih hpair
      exact ⟨List.mem_append_left _ hname, hdestination⟩
    · obtain ⟨rfl, hdestination⟩ := mem_filePairs hpair
      exact ⟨by simp, hdestination⟩

/-- **The order of the pairs.** -/
theorem Worked.pairwise (h : Worked tree options destinations names done)
    (hsorted : names.Pairwise (· < ·))
    (hnodup : (destinations.map (·.configuration)).Nodup) : done.Pairwise Pair.Before := by
  induction h with
  | nil => exact .nil
  | @concat names done now name before wrote ih =>
    obtain ⟨hnames, -, hlast⟩ := List.pairwise_append.mp hsorted
    refine List.pairwise_append.mpr ⟨ih hnames, ?_, fun a ha b hb => .inl ?_⟩
    · unfold filePairs
      split
      · refine List.pairwise_map.mpr (List.Pairwise.imp ?_ (List.pairwise_map.mp hnodup))
        exact fun hne => .inr ⟨rfl, hne⟩
      · exact .nil
    · rw [(mem_filePairs hb).1]
      exact hlast a.name (before.mem ha).1 name (by simp)

/-- **The pairs of any number of files.** -/
theorem Worked.reached {files skipped : Nat} {progress next : Progress}
    (hstart : Reached tree options files skipped [] progress)
    (hloop : names.foldlM (generateFile options destinations) progress = .ok next) :
    ∃ skipped done, Worked tree options destinations names done ∧
      Reached tree options files skipped done next := by
  induction names using List.reverseRecOn generalizing next with
  | nil =>
    obtain rfl := Except.ok.inj hloop
    exact ⟨skipped, [], .nil, hstart⟩
  | append_singleton names name ih =>
    rw [List.foldlM_append, bind_eq_ok_iff] at hloop
    obtain ⟨middle, hmiddle, hlast⟩ := hloop
    simp only [List.foldlM_cons, List.foldlM_nil, bind_pure] at hlast
    obtain ⟨skipped, done, hworked, hreached⟩ := ih hmiddle
    exact ⟨_, _, hworked.concat name hreached.wrote, (hreached.generateFile_now hlast).2⟩

end

/-! ## Places of outputs -/

/-- The last output that leads to a place can be read there. -/
theorem Wrote.read?_of_last {before after : FileTree} {front back : List Output} {output : Output}
    (h : Wrote before (front ++ output :: back) after)
    (hlast : ∀ later ∈ back, before.locate later.path ≠ before.locate output.path) :
    after.read? output.path = some output.generated.content := by
  have hnone : back.reverse.find? (before.locate ·.path = before.locate output.path) = none := by
    simpa using hlast
  have hfind : lastAt? before (front ++ output :: back) (before.locate output.path) =
      some output := by
    rw [lastAt?, List.reverse_append, List.reverse_cons, List.append_assoc, List.find?_append,
      hnone, Option.none_or, List.singleton_append, List.find?_cons_of_pos (by simp)]
  obtain ⟨last, hlast, hread⟩ := h.read?_last (by simp : output ∈ front ++ output :: back)
  rw [hread, ← Option.some.inj (hfind.symm.trans hlast)]

theorem Pair.path_of_output? {options : Options} {pair : Pair} {output : Output}
    (h : pair.output? options = some output) :
    output.path = outputPath options.outputDirectory pair.destination (Path.stem pair.name) := by
  unfold Pair.output? at h
  split at h
  · rw [← Option.some.inj h]
  · cases h

section

variable [Readers] {tree : FileTree} {options : Options} {names : List String}
  {destinations : List Destination}

theorem Planned.nodup (h : Planned tree options names destinations) :
    (destinations.map (·.configuration)).Nodup := by
  have hconfigurations := h.configurations
  simp only [Plugin.configurations, bind_eq_ok_iff, pure_eq_ok_iff] at hconfigurations
  obtain ⟨groups, -, herase⟩ := hconfigurations
  rw [← herase]
  exact (firstOccurrences_eraseDups groups.flatten).nodup

/-- A configuration is loaded once. -/
theorem Planned.destination_eq (h : Planned tree options names destinations) {d d' : Destination}
    (hd : d ∈ destinations) (hd' : d' ∈ destinations) (heq : d.configuration = d'.configuration) :
    d = d' :=
  List.inj_on_of_nodup_map h.nodup hd hd' heq

variable (hselector : options.selector.Plain)
  (hplanned : Planned tree options names destinations)
  (hextension : ∀ destination ∈ destinations, '/' ∉ destination.extension.toList)

include hselector hplanned hextension

/-- **Two outputs lead to one place** if they are of one configuration, and of files whose names have
the same stem. -/
theorem locate_eq_iff {a b : Pair} (ha : a.name ∈ names ∧ a.destination ∈ destinations)
    (hb : b.name ∈ names ∧ b.destination ∈ destinations) {x y : Output}
    (hx : a.output? options = some x) (hy : b.output? options = some y)
    (hendsx : EndsInName x.path) (hendsy : EndsInName y.path) :
    tree.locate x.path = tree.locate y.path ↔
      a.destination.configuration = b.destination.configuration ∧
        (a.name = b.name ∨ Twins a.name b.name) := by
  have hnames := Plugin.plain_of_sourceNames hplanned.sources
  have hplain : ∀ destination ∈ destinations, destination.configuration.Plain :=
    List.forall_mem_map.mp (Plugin.plain_of_configurations hselector hplanned.configurations)
  have hending := Plugin.ending_of_sourceNames hplanned.sources
  rw [← Path.stem_eq_iff (hending a.name ha.1) (hending b.name hb.1)]
  rw [Pair.path_of_output? hx] at hendsx ⊢
  rw [Pair.path_of_output? hy] at hendsy ⊢
  have hxname := plain_of_outputPath (hnames a.name ha.1) (hextension _ ha.2) hendsx
  have hyname := plain_of_outputPath (hnames b.name hb.1) (hextension _ hb.2) hendsy
  constructor
  · intro h
    rw [locate_outputPath _ _ (hplain _ ha.2) hxname, locate_outputPath _ _ (hplain _ hb.2) hyname,
      List.append_cancel_left_eq] at h
    simp only [List.cons.injEq, and_true] at h
    obtain ⟨hlanguage, htest, harith, hfile⟩ := h
    have hconfiguration : a.destination.configuration = b.destination.configuration :=
      calc a.destination.configuration
        _ = ⟨b.destination.configuration.language, b.destination.configuration.testLibrary,
              b.destination.configuration.arithLibrary⟩ := by rw [← hlanguage, ← htest, ← harith]
        _ = b.destination.configuration := rfl
    refine ⟨hconfiguration, ?_⟩
    rw [hplanned.destination_eq ha.2 hb.2 hconfiguration] at hfile
    exact String.append_left_inj _ |>.mp hfile
  · rintro ⟨hconfiguration, hstem⟩
    rw [hplanned.destination_eq ha.2 hb.2 hconfiguration, hstem]

/-- Two outputs that lead to one place have one path. -/
theorem path_eq_iff_locate_eq {a b : Pair} (ha : a.name ∈ names ∧ a.destination ∈ destinations)
    (hb : b.name ∈ names ∧ b.destination ∈ destinations) {x y : Output}
    (hx : a.output? options = some x) (hy : b.output? options = some y)
    (hendsx : EndsInName x.path) (hendsy : EndsInName y.path) :
    x.path = y.path ↔ tree.locate x.path = tree.locate y.path := by
  refine ⟨congrArg tree.locate, fun hplace => ?_⟩
  obtain ⟨hconfiguration, hnames⟩ :=
    (locate_eq_iff hselector hplanned hextension ha hb hx hy hendsx hendsy).mp hplace
  have hending := Plugin.ending_of_sourceNames hplanned.sources
  rw [Pair.path_of_output? hx, Pair.path_of_output? hy,
    hplanned.destination_eq ha.2 hb.2 hconfiguration,
    (Path.stem_eq_iff (hending _ ha.1) (hending _ hb.1)).mpr hnames]

end

/-! ## Runs to the end -/

/-- The pair gives an output, but so does the file `.itl.itl`, which comes later and has the same
stem. -/
structure Overwritten (options : Options) (done : List Pair) (pair : Pair) : Prop where
  name : pair.name = ".itl"
  output : (pair.output? options).isSome
  later : ∃ other ∈ done, other.name = ".itl.itl" ∧
    other.destination.configuration = pair.destination.configuration ∧
      (other.output? options).isSome

/-- What a run to the end has written, where `done` are its pairs. -/
structure Separated (options : Options) (done : List Pair) (progress : Progress) : Prop where
  generated : progress.summary.generated = (outputs options done).map (·.path)
  /-- Different pairs go to different paths, twins apart. -/
  path_eq_iff : ∀ a ∈ done, ∀ b ∈ done, ∀ x ∈ a.output? options, ∀ y ∈ b.output? options,
    x.path = y.path ↔ a.destination.configuration = b.destination.configuration ∧
      (a.name = b.name ∨ Twins a.name b.name)
  nodup_iff : progress.summary.generated.Nodup ↔ ∀ pair ∈ done, ¬ Overwritten options done pair
  /-- An output can be read back, unless it has been written over. -/
  contents : ∀ pair ∈ done, ¬ Overwritten options done pair → ∀ output ∈ pair.output? options,
    progress.tree.read? output.path = some output.generated.content

section

variable {tree : FileTree} {options : Options} {names : List String}
  {destinations : List Destination} {done : List Pair} {files skipped : Nat} {progress : Progress}

/-- Of two outputs in one place, the first one has been written over. -/
theorem overwritten_of_before {a b : Pair} (hbefore : a.Before b) (hb : b ∈ done) {x y : Output}
    (hx : a.output? options = some x) (hy : b.output? options = some y)
    (h : a.destination.configuration = b.destination.configuration ∧
      (a.name = b.name ∨ Twins a.name b.name)) : Overwritten options done a := by
  obtain ⟨hconfiguration, hnames⟩ := h
  have hlt : a.name < b.name := hbefore.resolve_right fun hsame => hsame.2 hconfiguration
  obtain ⟨ha, hb'⟩ := (hnames.resolve_left hlt.ne).eq_of_lt hlt
  exact ⟨ha, by simp [hx], b, hb, hb', hconfiguration.symm, by simp [hy]⟩

/-- No path is written twice, if no output has been written over. -/
theorem nodup_paths_iff (hordered : done.Pairwise Pair.Before)
    (hpaths : ∀ a ∈ done, ∀ b ∈ done, ∀ x ∈ a.output? options, ∀ y ∈ b.output? options,
      x.path = y.path ↔ a.destination.configuration = b.destination.configuration ∧
        (a.name = b.name ∨ Twins a.name b.name)) :
    ((outputs options done).map (·.path)).Nodup ↔
      ∀ pair ∈ done, ¬ Overwritten options done pair := by
  rw [outputs, List.Nodup, List.pairwise_map, List.pairwise_filterMap]
  constructor
  · rintro hnodup a ha ⟨hname, houtput, b, hb, hname', hconfiguration, houtput'⟩
    obtain ⟨x, hx⟩ := Option.isSome_iff_exists.mp houtput
    obtain ⟨y, hy⟩ := Option.isSome_iff_exists.mp houtput'
    have hne : a ≠ b := by
      rintro rfl
      exact absurd (hname.symm.trans hname') (by decide)
    have : Std.Symm fun a b : Pair => ∀ x, a.output? options = some x →
        ∀ y, b.output? options = some y → x.path ≠ y.path :=
      ⟨fun a b hab x hx y hy => (hab y hy x hx).symm⟩
    exact hnodup.forall ha hb hne x hx y hy
      ((hpaths a ha b hb x hx y hy).mpr ⟨hconfiguration.symm, .inr (.inl ⟨hname, hname'⟩)⟩)
  · intro hkept
    refine hordered.imp_of_mem fun {a b} ha hb hbefore x hx y hy heq => hkept a ha ?_
    exact overwritten_of_before hbefore hb hx hy ((hpaths a ha b hb x hx y hy).mp heq)

/-- An output that has not been written over can be read back. -/
theorem Wrote.read?_of_not_overwritten {after : FileTree}
    (h : Wrote tree (outputs options done) after) (hordered : done.Pairwise Pair.Before)
    (hplaces : ∀ a ∈ done, ∀ b ∈ done, ∀ x ∈ a.output? options, ∀ y ∈ b.output? options,
      tree.locate x.path = tree.locate y.path →
        a.destination.configuration = b.destination.configuration ∧
          (a.name = b.name ∨ Twins a.name b.name))
    {pair : Pair} (hpair : pair ∈ done) (hkept : ¬ Overwritten options done pair) {output : Output}
    (houtput : pair.output? options = some output) :
    after.read? output.path = some output.generated.content := by
  obtain ⟨front, back, rfl⟩ := List.append_of_mem hpair
  rw [outputs_append, outputs, outputs, List.filterMap_cons_some houtput] at h
  refine h.read?_of_last fun later hlater heq => hkept ?_
  obtain ⟨other, hother, hlater⟩ := List.mem_filterMap.mp hlater
  have hmem : other ∈ front ++ pair :: back := by simp [hother]
  have hbefore : pair.Before other :=
    (List.pairwise_cons.mp (List.pairwise_append.mp hordered).2.1).1 other hother
  exact overwritten_of_before hbefore hmem houtput hlater
    (hplaces pair hpair other hmem output houtput later hlater heq.symm)

theorem Reached.separated [Readers] (h : Reached tree options files skipped done progress)
    (hworked : Worked tree options destinations names done)
    (hselector : options.selector.Plain) (hplanned : Planned tree options names destinations)
    (hextension : ∀ destination ∈ destinations, '/' ∉ destination.extension.toList) :
    Separated options done progress := by
  have hgenerated : progress.summary.generated = (outputs options done).map (·.path) := by
    rw [h.summary]
  have hends {pair : Pair} (hpair : pair ∈ done) {output : Output}
      (houtput : pair.output? options = some output) : EndsInName output.path :=
    h.wrote.endsInName output (List.mem_filterMap.mpr ⟨pair, hpair, houtput⟩)
  have hplaces : ∀ a ∈ done, ∀ b ∈ done, ∀ x ∈ a.output? options, ∀ y ∈ b.output? options,
      tree.locate x.path = tree.locate y.path ↔
        a.destination.configuration = b.destination.configuration ∧
          (a.name = b.name ∨ Twins a.name b.name) := fun a ha b hb x hx y hy =>
    locate_eq_iff hselector hplanned hextension (hworked.mem ha) (hworked.mem hb) hx hy
      (hends ha hx) (hends hb hy)
  have hpaths : ∀ a ∈ done, ∀ b ∈ done, ∀ x ∈ a.output? options, ∀ y ∈ b.output? options,
      x.path = y.path ↔ a.destination.configuration = b.destination.configuration ∧
        (a.name = b.name ∨ Twins a.name b.name) := fun a ha b hb x hx y hy =>
    (path_eq_iff_locate_eq hselector hplanned hextension (hworked.mem ha) (hworked.mem hb) hx hy
      (hends ha hx) (hends hb hy)).trans (hplaces a ha b hb x hx y hy)
  have hordered := hworked.pairwise hplanned.sorted hplanned.nodup
  refine ⟨hgenerated, hpaths, ?_, fun pair hpair hkept output houtput => ?_⟩
  · rw [hgenerated]
    exact nodup_paths_iff hordered hpaths
  · exact h.wrote.read?_of_not_overwritten hordered
      (fun a ha b hb x hx y hy => (hplaces a ha b hb x hx y hy).mp) hpair hkept houtput

end

/-- **The outputs of a run** stand under different paths and can be read back, except that the
output of `.itl` is lost if there is one of `.itl.itl`. -/
theorem run_separated [Readers] {tree : FileTree} {options : Options}
    (hselector : options.selector.Plain)
    (hextension : ∀ work ∈ (plan tree options).toOption, ∀ destination ∈ work.2,
      '/' ∉ destination.extension.toList)
    (hok : (run tree options).error = none) :
    ∃ names destinations done, Planned tree options names destinations ∧
      Worked tree options destinations names done ∧
        Separated options done (run tree options).progress := by
  obtain ⟨error, -, hrun⟩ | ⟨names, destinations, hplan, ⟨stopped, -, hrun⟩ |
      ⟨progress, log, hloop, hrun⟩⟩ := run_cases tree options
  · rw [hrun] at hok
    cases hok
  · rw [hrun] at hok
    cases hok
  · have hplanned := planned_of_plan hplan
    obtain ⟨skipped, done, hworked, hreached⟩ := Worked.reached (.start tree options _ _) hloop
    rw [hrun]
    exact ⟨names, destinations, done, hplanned, hworked, (hreached.logged log).separated hworked
      hselector hplanned (hextension (names, destinations) (by rw [hplan]; rfl))⟩

/-- The tree of `sampleTree` with two more source files, whose names have the same stem. -/
def dottedTree : FileTree :=
  ((sampleTree (.text "testcase")).set ["itl"] ".itl.itl"
    (.file (.text "testcase second \x7b f = 1; \x7d")) (by decide)).set ["itl"] ".itl"
    (.file (.text "testcase first \x7b f = 1; \x7d")) (by decide)

theorem sourceNames_dottedTree :
    Plugin.sourceNames dottedTree sampleOptions.sourceDirectory sampleOptions.filePattern =
      .ok [".itl", ".itl.itl", "a.itl", "b.itl"] := by
  have hlist : dottedTree.list? "itl" = some [".itl", ".itl.itl", "a.itl", "b.itl"] := by
    have hresolve : dottedTree.resolve? "itl" = some (["itl"], .directory) := rfl
    have hchildren : dottedTree.children ["itl"] = [".itl", ".itl.itl", "a.itl", "b.itl"] := rfl
    rw [list?, hresolve]
    simp only [hchildren]
    rw [List.mergeSort_of_pairwise (by decide)]
  rewrite [Plugin.sourceNames, sampleOptions, hlist]
  decide +kernel

/-- The run writes the output of the second file over that of the first one. -/
theorem run_dottedTree :
    (∀ work ∈ (plan dottedTree sampleOptions).toOption, ∀ destination ∈ work.2,
      '/' ∉ destination.extension.toList) ∧
    (run dottedTree sampleOptions).error = none ∧
    (run dottedTree sampleOptions).progress.summary.generated =
      ["output/c/u/i/.itl.c", "output/c/u/i/.itl.c", "output/c/u/i/a.c"] ∧
    (run dottedTree sampleOptions).progress.tree.read? "output/c/u/i/.itl.c" = some "second" := by
  unfold run plan
  rewrite [sourceNames_dottedTree]
  decide +kernel

theorem run_separated_dottedTree :
    (∀ work ∈ (plan dottedTree sampleOptions).toOption, ∀ destination ∈ work.2,
      '/' ∉ destination.extension.toList) ∧
    (run dottedTree sampleOptions).error = none ∧ sampleOptions.selector.Plain ∧
    ∃ names destinations done, Planned dottedTree sampleOptions names destinations ∧
      Worked dottedTree sampleOptions destinations names done ∧
        Separated sampleOptions done (run dottedTree sampleOptions).progress := by
  obtain ⟨hextension, hok, -⟩ := run_dottedTree
  exact ⟨hextension, hok, plain_sampleOptions, run_separated plain_sampleOptions hextension hok⟩

/-- Not every run writes each of its outputs to a path of its own. -/
theorem run_overwrites :
    ¬ ∀ (tree : FileTree) (options : Options), options.selector.Plain →
      (∀ work ∈ (plan tree options).toOption, ∀ destination ∈ work.2,
        '/' ∉ destination.extension.toList) →
      (run tree options).error = none → (run tree options).progress.summary.generated.Nodup := by
  intro h
  obtain ⟨hextension, hok, hgenerated, -⟩ := run_dottedTree
  have hnodup := h dottedTree sampleOptions plain_sampleOptions hextension hok
  rw [hgenerated] at hnodup
  exact absurd hnodup (by decide)

end IntervalSuite.Run
