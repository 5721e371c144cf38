import IntervalSuite.Proofs.Run.Plan
import IntervalSuite.Readers.Standard

/-!
# What a run leaves behind

A run that reaches its end has done all its pairs and nothing else; one that ends early has done
those before the file or the output at which it ended. Whatever it has done is computed from the tree
that it started from.

* `run_completed`: the summary and the tree of a run that reaches its end.
* `run_interrupted`: the tree of a run that ends early.
-/

namespace IntervalSuite.Run

open FileTree

/-! ## Counting -/

theorem length_outputs (options : Options) (pairs : List Pair) :
    (outputs options pairs).length + pairs.countP (Pair.fails options) = pairs.length := by
  induction pairs with
  | nil => rfl
  | cons pair pairs ih =>
    rw [outputs] at ih ⊢
    cases houtput : pair.output? options with
    | none =>
      rw [List.filterMap_cons_none houtput, List.countP_cons_of_pos (by simp [Pair.fails, houtput]),
        List.length_cons]
      omega
    | some output =>
      rw [List.filterMap_cons_some houtput, List.countP_cons_of_neg (by simp [Pair.fails, houtput]),
        List.length_cons, List.length_cons]
      omega

theorem length_pairs (tree : FileTree) (options : Options) (names : List String)
    (destinations : List Destination) :
    (pairs tree options names destinations).length =
      (names.length - names.countP (unparsed tree options)) * destinations.length := by
  have hadd : (pairs tree options names destinations).length +
      names.countP (unparsed tree options) * destinations.length =
        names.length * destinations.length := by
    induction names with
    | nil => simp [pairs]
    | cons name names ih =>
      rw [pairs, List.flatMap_cons, List.length_append, ← pairs, filePairs]
      cases hparsed : parsed? tree options name with
      | none =>
        rw [List.countP_cons_of_pos (by simp [unparsed, hparsed]), List.length_cons,
          Nat.succ_mul, Nat.succ_mul, ← ih, List.length_nil]
        omega
      | some document =>
        rw [List.countP_cons_of_neg (by simp [unparsed, hparsed]), List.length_cons,
          Nat.succ_mul, ← ih, List.length_map]
        omega
  rw [Nat.sub_mul, ← hadd, Nat.add_sub_cancel]

/-! ## Runs to the end -/

/-- All pairs of the source files and the destinations have been done. -/
structure Completed (tree : FileTree) (options : Options) (names : List String)
    (destinations : List Destination) (progress : Progress) : Prop where
  readable : ∀ name ∈ names, (tree.read? (Path.join options.sourceDirectory name)).isSome
  files : progress.summary.files = names.length
  skippedFiles : progress.summary.skippedFiles = names.countP (unparsed tree options)
  failed : progress.summary.failed =
    (pairs tree options names destinations).countP (Pair.fails options)
  warnings : progress.summary.warnings =
    ((outputs options (pairs tree options names destinations)).flatMap
      (·.generated.warnings)).length
  generated : progress.summary.generated =
    (outputs options (pairs tree options names destinations)).map (·.path)
  total : progress.summary.generated.length + progress.summary.failed =
    (progress.summary.files - progress.summary.skippedFiles) * destinations.length
  entries : ∀ location, progress.tree.get? location =
    entryAfter tree (outputs options (pairs tree options names destinations)) location
  /-- Under each path stands the last output that leads to the same place. -/
  contents : ∀ path ∈ progress.summary.generated, ∃ last,
    lastAt? tree (outputs options (pairs tree options names destinations)) (tree.locate path) =
      some last ∧ progress.tree.read? path = some last.generated.content

theorem Reached.completed {tree : FileTree} {options : Options} {names : List String}
    {destinations : List Destination} {progress : Progress}
    (h : Reached tree options names.length (names.countP (unparsed tree options))
      (pairs tree options names destinations) progress)
    (hread : ∀ name ∈ names, (tree.read? (Path.join options.sourceDirectory name)).isSome) :
    Completed tree options names destinations progress where
  readable := hread
  files := by rw [h.summary]
  skippedFiles := by rw [h.summary]
  failed := by rw [h.summary]
  warnings := by rw [h.summary]
  generated := by rw [h.summary]
  total := by
    simp only [h.summary, List.length_map]
    rw [length_outputs, length_pairs]
  entries := h.wrote.get?_eq
  contents := by
    rw [h.summary]
    exact List.forall_mem_map.mpr fun output hmem => h.wrote.read?_last hmem

/-- The last output with a path. -/
def last? (outputs : List Output) (path : String) : Option Output :=
  outputs.reverse.find? (·.path = path)

/-- The last output in a place is the last one with its path, if different paths lead to different
places. -/
theorem lastAt?_eq_last? {tree : FileTree} {outputs : List Output} {output : Output}
    (hplaces : ∀ a ∈ outputs, ∀ b ∈ outputs, tree.locate a.path = tree.locate b.path →
      a.path = b.path) (hmem : output ∈ outputs) :
    lastAt? tree outputs (tree.locate output.path) = last? outputs output.path := by
  rw [lastAt?, last?, ← List.head?_filter, ← List.head?_filter]
  refine congrArg List.head? (List.filter_congr fun other hother => ?_)
  exact decide_eq_decide.mpr ⟨hplaces other (List.mem_reverse.mp hother) output hmem,
    congrArg tree.locate⟩

section

variable [Readers]

/-- **A run** has no plan, ends early, or reaches its end. -/
theorem run_cases (tree : FileTree) (options : Options) :
    (∃ error, plan tree options = .error error ∧
      run tree options = ⟨⟨tree, [], ⟨0, 0, 0, [], 0⟩⟩, some error⟩) ∨
    ∃ names destinations, plan tree options = .ok (names, destinations) ∧
      ((∃ stopped, names.foldlM (generateFile options destinations)
          (Progress.start tree names.length destinations.length) = .error stopped ∧
        run tree options = ⟨stopped.progress, some stopped.error⟩) ∨
      ∃ progress log, names.foldlM (generateFile options destinations)
          (Progress.start tree names.length destinations.length) = .ok progress ∧
        run tree options = ⟨⟨progress.tree, log, progress.summary⟩, none⟩) := by
  unfold run
  cases hplan : plan tree options with
  | error error => exact .inl ⟨error, rfl, rfl⟩
  | ok work =>
    obtain ⟨names, destinations⟩ := work
    refine .inr ⟨names, destinations, rfl, ?_⟩
    simp only []
    cases hloop : names.foldlM (generateFile options destinations)
        (Progress.start tree names.length destinations.length) with
    | error stopped => exact .inl ⟨stopped, rfl, rfl⟩
    | ok progress => exact .inr ⟨progress, _, rfl, rfl⟩

/-- **A run that reaches its end** has found its source files and its destinations, and has done all
their pairs. Where the names that the selector gives are plain, and no extension holds a slash, an
output can only be written over under its own path. -/
theorem run_completed {tree : FileTree} {options : Options} (hapart : SourcesApart tree options)
    (hok : (run tree options).error = none) :
    ∃ names destinations, Planned tree options names destinations ∧
      Completed tree options names destinations (run tree options).progress ∧
      (options.selector.Plain →
        (∀ destination ∈ destinations, '/' ∉ destination.extension.toList) →
        ∀ path ∈ (run tree options).progress.summary.generated,
          lastAt? tree (outputs options (pairs tree options names destinations))
              (tree.locate path) =
            last? (outputs options (pairs tree options names destinations)) path) := by
  obtain ⟨error, -, hrun⟩ | ⟨names, destinations, hplan, ⟨stopped, -, hrun⟩ |
      ⟨progress, log, hloop, hrun⟩⟩ := run_cases tree options
  · rw [hrun] at hok
    cases hok
  · rw [hrun] at hok
    cases hok
  · have hplanned := planned_of_plan hplan
    obtain ⟨hread, hreached⟩ := reached_of_foldlM (hapart.apart hplan) (List.Subset.refl _) hloop
    rw [hrun]
    refine ⟨names, destinations, hplanned, (hreached.logged log).completed hread, ?_⟩
    intro hselector hextension
    simp only [hreached.summary]
    refine List.forall_mem_map.mpr fun output hmem => lastAt?_eq_last? (fun a ha b hb => ?_) hmem
    exact path_congr hselector hplanned hextension ha hb (hreached.wrote.endsInName a ha)
      (hreached.wrote.endsInName b hb)

end

/-- The sheet of a language. -/
def sampleLanguage : String :=
  "name: c\nextension: .c\nline_comment_token: //\nindent_tests: false\nindent_testcases: false"

/-- Two source files and one configuration; the content of the second file is left open. -/
def sampleTree (second : Content) : FileTree where
  entries := ⟨
    [(["itl"], .directory),
      (["itl", "a.itl"], .file (.text "testcase t \x7b f = 1; \x7d")),
      (["itl", "b.itl"], .file second),
      (["plugins"], .directory),
      (["plugins", "c"], .directory),
      (["plugins", "c", "lang.yaml"], .file (.text sampleLanguage)),
      (["plugins", "c", "test"], .directory),
      (["plugins", "c", "test", "u"], .directory),
      (["plugins", "c", "test", "u", "test.yaml"], .file (.text
        "testfile_seq: $TESTCASES\ntestcase_seq: $TC_NAME")),
      (["plugins", "c", "arith"], .directory),
      (["plugins", "c", "arith", "i"], .directory),
      (["plugins", "c", "arith", "i", "arith.yaml"], .file (.text ""))],
    by simp; decide, by simp⟩
  nodup := by simp
  workingDirectory := []

def sampleOptions : Options :=
  ⟨"itl", "", .choices [⟨some "c", some "u", some "i"⟩], "output", "plugins"⟩

theorem plain_sampleOptions : sampleOptions.selector.Plain := by
  have hparse : Plugin.Selector.parse? "('c','u','i')" = some sampleOptions.selector := by
    decide +kernel
  exact Plugin.Selector.plain_of_parse? hparse

theorem sourceNames_sampleTree (second : Content) :
    Plugin.sourceNames (sampleTree second) sampleOptions.sourceDirectory
      sampleOptions.filePattern = .ok ["a.itl", "b.itl"] := by
  -- Sorting does not reduce by itself; the names are in their order already.
  have hlist : (sampleTree second).list? "itl" = some ["a.itl", "b.itl"] := by
    have hresolve : (sampleTree second).resolve? "itl" = some (["itl"], .directory) := rfl
    have hchildren : (sampleTree second).children ["itl"] = ["a.itl", "b.itl"] := rfl
    rw [list?, hresolve]
    simp only [hchildren]
    rw [List.mergeSort_of_pairwise (by decide)]
  have ha : (sampleTree second).hasFile (Path.join "itl" "a.itl") = true := rfl
  have hb : (sampleTree second).hasFile (Path.join "itl" "b.itl") = true := rfl
  rewrite [Plugin.sourceNames, sampleOptions, hlist]
  simp only [List.filter_cons, List.filter_nil, ha, hb, Bool.true_and]
  decide +kernel

/-- The second file is skipped, and the first one is written. -/
theorem run_completed_sampleTree :
    SourcesApart (sampleTree (.text "testcase")) sampleOptions ∧
    (run (sampleTree (.text "testcase")) sampleOptions).error = none ∧
    (run (sampleTree (.text "testcase")) sampleOptions).progress.summary =
      ⟨2, 1, 0, ["output/c/u/i/a.c"], 1⟩ ∧
    sampleOptions.selector.Plain ∧
    (∀ work ∈ (plan (sampleTree (.text "testcase")) sampleOptions).toOption,
      ∀ destination ∈ work.2, '/' ∉ destination.extension.toList) ∧
    ∃ names destinations,
      Planned (sampleTree (.text "testcase")) sampleOptions names destinations ∧
      Completed (sampleTree (.text "testcase")) sampleOptions names destinations
        (run (sampleTree (.text "testcase")) sampleOptions).progress := by
  have hrun : SourcesApart (sampleTree (.text "testcase")) sampleOptions ∧
      (run (sampleTree (.text "testcase")) sampleOptions).error = none ∧
      (run (sampleTree (.text "testcase")) sampleOptions).progress.summary =
        ⟨2, 1, 0, ["output/c/u/i/a.c"], 1⟩ ∧
      ∀ work ∈ (plan (sampleTree (.text "testcase")) sampleOptions).toOption,
        ∀ destination ∈ work.2, '/' ∉ destination.extension.toList := by
    unfold SourcesApart run plan
    rewrite [sourceNames_sampleTree]
    decide +kernel
  obtain ⟨hapart, hok, hsummary, hextension⟩ := hrun
  obtain ⟨names, destinations, hplanned, hcompleted, -⟩ := run_completed hapart hok
  exact ⟨hapart, hok, hsummary, plain_sampleOptions, hextension, names, destinations, hplanned,
    hcompleted⟩

/-! ## Runs that end early -/

theorem filter_lt_of_sorted {before after : List String} {name : String}
    (h : (before ++ name :: after).Pairwise (· < ·)) :
    (before ++ name :: after).filter (· < name) = before := by
  obtain ⟨-, hafter, hbefore⟩ := List.pairwise_append.mp h
  have hlt : before.filter (· < name) = before :=
    List.filter_eq_self.mpr fun a ha => by simpa using hbefore a ha name List.mem_cons_self
  have hge : (name :: after).filter (· < name) = [] := by
    refine List.filter_eq_nil_iff.mpr fun a ha => ?_
    rw [decide_eq_true_eq]
    rcases List.mem_cons.mp ha with rfl | ha
    · exact lt_irrefl _
    · exact lt_asymm ((List.pairwise_cons.mp hafter).1 a ha)
  rw [List.filter_append, hlt, hge, List.append_nil]

section

variable [Readers]

/-- What an early end leaves behind: nothing, if there was no plan; the outputs of the files before
the one that could not be read; or those before the one that could not be written. -/
def Interrupted (tree : FileTree) (options : Options) (after : FileTree) : Error → Prop
  | .discovery _ | .specification _ _ => after = tree
  | .read path => ∃ names destinations, Planned tree options names destinations ∧
      ∃ name ∈ names, path = Path.join options.sourceDirectory name ∧ tree.read? path = none ∧
        ∀ location, after.get? location = entryAfter tree
          (outputs options (pairs tree options (names.filter (· < name)) destinations)) location
  | .write path => ∃ names destinations, Planned tree options names destinations ∧
      ∃ before pair rest output,
        pairs tree options names destinations = before ++ pair :: rest ∧
        pair.output? options = some output ∧ output.path = path ∧
        Refused tree (outputs options before) output after

/-- **A run that ends early** leaves behind what it did before. -/
theorem run_interrupted {tree : FileTree} {options : Options} {error : Error}
    (hapart : SourcesApart tree options) (h : (run tree options).error = some error) :
    Interrupted tree options (run tree options).progress.tree error := by
  obtain ⟨cause, hplan, hrun⟩ | ⟨names, destinations, hplan, ⟨stopped, hloop, hrun⟩ |
      ⟨progress, log, -, hrun⟩⟩ := run_cases tree options
  · rw [hrun] at h ⊢
    obtain rfl := Option.some.inj h
    obtain ⟨cause, rfl⟩ | ⟨configuration, cause, rfl⟩ := plan_eq_error hplan
    · rfl
    · rfl
  · rw [hrun] at h ⊢
    obtain rfl := Option.some.inj h
    have hplanned := planned_of_plan hplan
    obtain ⟨before, name, after, rfl, herror, hread, hwrote⟩ |
        ⟨before, pair, rest, output, hpairs, houtput, herror, hrefused⟩ :=
      stopped_of_foldlM (hapart.apart hplan) hloop
    · rw [herror]
      refine ⟨_, destinations, hplanned, name, by simp, rfl, hread, ?_⟩
      rw [filter_lt_of_sorted hplanned.sorted]
      exact hwrote.get?_eq
    · rw [herror]
      exact ⟨names, destinations, hplanned, before, pair, rest, output, hpairs, houtput, rfl,
        hrefused⟩
  · rw [hrun] at h
    cases h

end

/-- The second file is no text, and the output of the first one stays. -/
theorem run_interrupted_sampleTree :
    SourcesApart (sampleTree (.raw [255])) sampleOptions ∧
    (run (sampleTree (.raw [255])) sampleOptions).error = some (.read "itl/b.itl") ∧
    (run (sampleTree (.raw [255])) sampleOptions).progress.tree.read? "output/c/u/i/a.c" =
      some "t" ∧
    Interrupted (sampleTree (.raw [255])) sampleOptions
      (run (sampleTree (.raw [255])) sampleOptions).progress.tree (.read "itl/b.itl") := by
  have hrun : SourcesApart (sampleTree (.raw [255])) sampleOptions ∧
      (run (sampleTree (.raw [255])) sampleOptions).error = some (.read "itl/b.itl") ∧
      (run (sampleTree (.raw [255])) sampleOptions).progress.tree.read? "output/c/u/i/a.c" =
        some "t" := by
    unfold SourcesApart run plan
    rewrite [sourceNames_sampleTree]
    decide +kernel
  obtain ⟨hapart, herror, hread⟩ := hrun
  exact ⟨hapart, herror, hread, run_interrupted hapart herror⟩

end IntervalSuite.Run
